import Mathlib.Data.String.Basic
import OneBrc.Lib.GoText
import OneBrc.Lib.Transition

/-! `migrations.Run`, called by any number of replicas on one database. A definition statement
commits what is open and then itself, and a session that ends loses its lock and what is open. -/
namespace OneBrc.Server.Migrations
open Lib GoText

/-- A directory entry with the text of the file. -/
structure Entry where
  name : String
  isDir : Bool
  body : List Rune

/-- What the database does with a statement. -/
structure Sql (D : Type) where
  commits : Bool
  effect : D → D

/-- The tables and the rows of `onebrc_migrations`, if that table exists. -/
structure Disk (D : Type) where
  tables : D
  records : Option (List String)

/-- The files in the order of the loop. -/
def files (entries : List Entry) : List Entry :=
  (entries.mergeSort fun a b => a.name ≤ b.name).filter fun entry =>
    !entry.isDir && entry.name.endsWith ".sql"

/-- The statements of a file. -/
def Entry.statements (entry : Entry) : List (List Rune) :=
  (split (ofString "--> statement-breakpoint") entry.body).filter fun statement =>
    trimSpace statement ≠ []

/-- The statements one after another. -/
def execute {D : Type} (sql : List Rune → Sql D) (statements : List (List Rune)) (tables : D) : D :=
  statements.foldl (fun tables statement => (sql statement).effect tables) tables

def executeFiles {D : Type} (sql : List Rune → Sql D) (entries : List Entry) (tables : D) : D :=
  entries.foldl (fun tables entry => execute sql entry.statements tables) tables

/-- The next call of `Run`. -/
inductive Pc where
  | idle
  | getLock
  | createTable
  | count (entries : List Entry)
  | exec (entry : Entry) (statements : List (List Rune)) (entries : List Entry)
  | commit (entries : List Entry)
  | returned
  | failed
  | crashed

/-- A call of `Run` with its session: `tx` is what an open transaction has changed. -/
structure Call (D : Type) where
  pc : Pc
  session : Bool
  tx : Option (Disk D → Disk D)

structure State (D : Type) where
  disk : Disk D
  lock : Option ℕ
  calls : ℕ → Call D

inductive Action where
  | start (r : ℕ)
  | next (r : ℕ)
  | endSession (r : ℕ)
  | fail (r : ℕ)
  | crash (r : ℕ)

section
variable {D : Type}

def Call.idle : Call D := ⟨.idle, false, none⟩

def State.initial (tables : D) : State D := ⟨⟨tables, none⟩, none, fun _ => .idle⟩

def State.set (s : State D) (r : ℕ) (call : Call D) : State D :=
  { s with calls := Function.update s.calls r call }

/-- The session is over: what is open is rolled back and the lock is free. -/
def State.close (s : State D) (r : ℕ) (pc : Pc) : State D :=
  { s.set r ⟨pc, false, none⟩ with lock := if s.lock = some r then none else s.lock }

/-- A change of rows, in the open transaction or by itself. -/
def State.change (s : State D) (r : ℕ) (pc : Pc) (change : Disk D → Disk D) : State D :=
  match (s.calls r).tx with
  | none => { s.set r ⟨pc, true, none⟩ with disk := change s.disk }
  | some tx => s.set r ⟨pc, true, some (change ∘ tx)⟩

/-- What the session sees. -/
def State.view (s : State D) (r : ℕ) : Disk D := ((s.calls r).tx.getD id) s.disk

/-- Everything that is open is on the disk. -/
def State.commit (s : State D) (r : ℕ) (pc : Pc) : State D :=
  { s.set r ⟨pc, true, none⟩ with disk := s.view r }

/-- The next call that `Run` makes on its session. -/
def next (sql : List Rune → Sql D) (entries : List Entry) (s : State D) (r : ℕ) :
    Option (State D) :=
  match (s.calls r).pc with
  | .idle | .returned | .failed | .crashed => none
  | .getLock =>
      if s.lock = none then some { s.set r ⟨.createTable, true, none⟩ with lock := some r }
      else none
  | .createTable => some { s.set r ⟨.count (files entries), true, none⟩ with
      disk := { s.disk with records := some (s.disk.records.getD []) } }
  | .count [] => some (s.close r .returned)
  | .count (entry :: rest) =>
      match s.disk.records with
      | none => some (s.close r .failed)
      | some names =>
          if names.count entry.name ≠ 0 then some (s.set r ⟨.count rest, true, none⟩)
          else some (s.set r ⟨.exec entry entry.statements rest, true, some id⟩)
  | .exec entry (statement :: statements) rest =>
      if (sql statement).commits && (s.calls r).tx.isSome then
        some (s.commit r (.exec entry (statement :: statements) rest))
      else some (s.change r (.exec entry statements rest) fun disk =>
        { disk with tables := (sql statement).effect disk.tables })
  | .exec entry [] rest =>
      match (s.view r).records with
      | none => some (s.close r .failed)
      | some names =>
          if entry.name ∈ names then some (s.close r .failed)
          else some (s.change r (.commit rest) fun disk =>
            { disk with records := disk.records.map (· ++ [entry.name]) })
  | .commit rest => some (s.commit r (.count rest))

/-- The call has begun and is not over. -/
def Pc.isActive : Pc → Bool
  | .idle | .returned | .failed | .crashed => false
  | _ => true

/-- A call fails without a session; the other actions are faults: a session ends, a call returns an
error, a process ends. -/
def step (sql : List Rune → Sql D) (entries : List Entry) (s : State D) : Action → Option (State D)
  | .start r =>
      match (s.calls r).pc with
      | .idle => some (s.set r ⟨.getLock, true, none⟩)
      | _ => none
  | .next r =>
      if (s.calls r).session then next sql entries s r
      else if (s.calls r).pc.isActive then some (s.close r .failed) else none
  | .endSession r => if (s.calls r).session then some (s.close r (s.calls r).pc) else none
  | .fail r => if (s.calls r).pc.isActive then some (s.close r .failed) else none
  | .crash r => if (s.calls r).pc.isActive then some (s.close r .crashed) else none

def system (sql : List Rune → Sql D) (entries : List Entry) (tables : D) :
    TransitionSystem (State D) Action where
  init := .initial tables
  step := step sql entries

end

end OneBrc.Server.Migrations
