import Mathlib.Data.List.Destutter
import OneBrc.Server.Privacy

/-! The event streams: the whole loop of `streamChanges`, what its client sees, and that streams
before the publication say nothing of the private results. Times are in nanoseconds. -/
namespace OneBrc.Server
open Lib

/-- What a stream writes; the id of a change is its time in milliseconds. -/
inductive StreamEvent where
  | error (body : Json String)
  | change (id : ℕ) (event : String) (data : Json String)
  | heartbeat

/-- One turn of the loop: what is loaded, and the clock after it. -/
structure StreamRound where
  loaded : Except AppError (Json String)
  now : ℕ

structure StreamState where
  previous : String
  lastWrite : ℕ

def heartbeatInterval : ℕ := 15 * 1000000000

def streamError (app : AppError) : Json String :=
  mapAny [("error", mapAny [("code", .string app.code), ("message", .string app.message)])]

section Loop
variable (digest : Json String → String) (event : String)

/-- The writes of the loop with their times. It ends with an error, or when the client leaves. -/
def streamFrom (s : StreamState) : List StreamRound → List (ℕ × StreamEvent)
  | [] => []
  | round :: rounds =>
      match round.loaded with
      | .error app => [(round.now, .error (streamError app))]
      | .ok value =>
          if digest value ≠ s.previous then
            (round.now, .change (round.now / 1000000) event value) ::
              streamFrom ⟨digest value, round.now⟩ rounds
          else if heartbeatInterval ≤ round.now - s.lastWrite then
            (round.now, .heartbeat) :: streamFrom ⟨s.previous, round.now⟩ rounds
          else streamFrom s rounds

def stream (opened : ℕ) (rounds : List StreamRound) : List (ℕ × StreamEvent) :=
  streamFrom digest event ⟨"", opened⟩ rounds

end Loop

/-- The values that are loaded before the first error. -/
def loadedValues : List StreamRound → List (Json String)
  | [] => []
  | round :: rounds =>
      match round.loaded with
      | .error _ => []
      | .ok value => value :: loadedValues rounds

def StreamEvent.data? : StreamEvent → Option (Json String)
  | .change _ _ data => some data
  | _ => none

/-- What the client is shown, one value after the other. -/
def shownValues (events : List (ℕ × StreamEvent)) : List (Json String) :=
  events.filterMap fun written => written.2.data?

section Shown
open scoped Classical

theorem getLast?_destutter' {α : Type} (a : α) (l : List α) :
    (l.destutter' (· ≠ ·) a).getLast? = (a :: l).getLast? := by
  induction l generalizing a with
  | nil => rfl
  | cons b l ih =>
    by_cases hab : a ≠ b
    · rw [List.destutter'_cons_pos _ hab, List.getLast?_cons_cons, ← ih b]
      cases hl : l.destutter' (· ≠ ·) b with
      | nil => exact absurd hl (List.destutter'_ne_nil l _)
      | cons c cs => rw [List.getLast?_cons_cons]
    · rw [List.destutter'_cons_neg _ hab, not_not.mp hab, ih b, List.getLast?_cons_cons]

variable {digest : Json String → String} {event : String} {s : StreamState}
  {rounds : List StreamRound}

/-- What is shown after a value: the changes from it on. -/
theorem shownValues_streamFrom {value : Json String} (hprevious : s.previous = digest value)
    (hdistinct : ∀ v ∈ value :: loadedValues rounds, ∀ w ∈ value :: loadedValues rounds,
      digest v = digest w → v = w) :
    value :: shownValues (streamFrom digest event s rounds) =
      (loadedValues rounds).destutter' (· ≠ ·) value := by
  induction rounds generalizing s value with
  | nil => rfl
  | cons round rounds ih =>
    cases hloaded : round.loaded with
    | error app =>
      simp only [streamFrom, loadedValues, hloaded]
      rfl
    | ok next =>
      simp only [loadedValues, hloaded] at hdistinct ⊢
      by_cases hnext : digest next = digest value
      · obtain rfl : next = value := hdistinct next (by simp) value (by simp) hnext
        rw [List.destutter'_cons_neg _ (not_not.mpr rfl)]
        have hrest : ∀ v ∈ next :: loadedValues rounds, ∀ w ∈ next :: loadedValues rounds,
            digest v = digest w → v = w := fun v hv w hw =>
          hdistinct v (List.mem_cons_of_mem _ hv) w (List.mem_cons_of_mem _ hw)
        simp only [streamFrom, hloaded, hprevious, ne_eq, not_true_eq_false, if_false]
        split
        · exact ih rfl hrest
        · exact ih hprevious hrest
      · have hne : value ≠ next := fun heq => hnext (heq ▸ rfl)
        have hrest : ∀ v ∈ next :: loadedValues rounds, ∀ w ∈ next :: loadedValues rounds,
            digest v = digest w → v = w := fun v hv w hw =>
          hdistinct v (List.mem_cons_of_mem _ hv) w (List.mem_cons_of_mem _ hw)
        rw [List.destutter'_cons_pos _ hne, ← ih (s := ⟨digest next, round.now⟩) rfl hrest]
        simp only [streamFrom, hloaded, hprevious, ne_eq, hnext, not_false_eq_true, if_true]
        rfl

/-- The client is shown every change of the loaded value once and in order, and in the end the value
that was loaded last. -/
theorem stream_shows_changes (hempty : ∀ v ∈ loadedValues rounds, digest v ≠ "")
    (hdistinct : ∀ v ∈ loadedValues rounds, ∀ w ∈ loadedValues rounds,
      digest v = digest w → v = w) (opened : ℕ) :
    shownValues (stream digest event opened rounds) =
        (loadedValues rounds).destutter (· ≠ ·) ∧
      (shownValues (stream digest event opened rounds)).getLast? =
        (loadedValues rounds).getLast? := by
  cases rounds with
  | nil => exact ⟨rfl, rfl⟩
  | cons round rounds =>
    cases hloaded : round.loaded with
    | error app =>
      simp only [stream, streamFrom, loadedValues, hloaded]
      exact ⟨rfl, rfl⟩
    | ok value =>
      simp only [loadedValues, hloaded] at hempty hdistinct
      have hshown : shownValues (stream digest event opened (round :: rounds)) =
          (loadedValues rounds).destutter' (· ≠ ·) value := by
        rw [← shownValues_streamFrom (s := ⟨digest value, round.now⟩) rfl hdistinct]
        simp only [stream, streamFrom, hloaded, ne_eq, hempty value (by simp), not_false_eq_true,
          if_true]
        rfl
      simp only [loadedValues, hloaded]
      exact ⟨hshown, by rw [hshown, getLast?_destutter']⟩

end Shown

/-- The SHA-256 digests of the texts `null` and `{}`. -/
def sampleDigest : Json String → String
  | .null => "74234e98afe7498fb5daf1f36ac2d78acc339464f950703b8c019892f982b90b"
  | _ => "44136fa355b3678a1146ad16f7e8649e94fb4fc21fe77e8310c060f61caaff8a"

theorem sampleDigest_ne (v : Json String) : sampleDigest v ≠ "" := by
  cases v <;> simp [sampleDigest]

/-- Two turns with one value, and one with another. -/
def sampleRounds : List StreamRound :=
  [⟨.ok .null, 0⟩, ⟨.ok .null, 1000000000⟩, ⟨.ok (.object []), 2000000000⟩]

open scoped Classical in
theorem stream_shows_changes_sample :
    shownValues (stream sampleDigest "contest" 0 sampleRounds) =
        (loadedValues sampleRounds).destutter (· ≠ ·) ∧
      (shownValues (stream sampleDigest "contest" 0 sampleRounds)).getLast? =
        (loadedValues sampleRounds).getLast? := by
  refine stream_shows_changes (fun v _ => sampleDigest_ne v) ?_ 0
  intro v hv w hw
  simp only [sampleRounds, loadedValues, List.mem_cons, List.not_mem_nil, or_false] at hv hw
  rcases hv with rfl | rfl | rfl <;> rcases hw with rfl | rfl | rfl <;> simp [sampleDigest]

section Silence
variable {digest : Json String → String} {event : String} {s : StreamState}
  {rounds : List StreamRound}

/-- After a turn without an error the last write, or that before the turns, is recent. -/
theorem streamFrom_recent {last : StreamRound} (hlast : rounds.getLast? = some last)
    (hok : ∀ round ∈ rounds, ∃ value, round.loaded = .ok value) :
    (∃ written, (streamFrom digest event s rounds).getLast? = some written ∧
      last.now < written.1 + heartbeatInterval) ∨
    streamFrom digest event s rounds = [] ∧ last.now < s.lastWrite + heartbeatInterval := by
  induction rounds generalizing s with
  | nil => cases hlast
  | cons round rounds ih =>
    obtain ⟨value, hloaded⟩ := hok round List.mem_cons_self
    -- what a write of this turn and those of the later turns give
    have hwrite (t : StreamState) (ht : t.lastWrite = round.now) (e : StreamEvent) :
        ∃ written, ((round.now, e) :: streamFrom digest event t rounds).getLast? =
          some written ∧ last.now < written.1 + heartbeatInterval := by
      cases rounds with
      | nil =>
        obtain rfl : round = last := Option.some.inj hlast
        exact ⟨_, rfl, Nat.lt_add_of_pos_right (by decide)⟩
      | cons next rounds =>
        rw [List.getLast?_cons_cons] at hlast
        rcases ih (s := t) hlast fun r hr => hok r (List.mem_cons_of_mem _ hr) with
          ⟨written, hwritten, hrecent⟩ | ⟨hnil, hrecent⟩
        · refine ⟨written, ?_, hrecent⟩
          rw [List.getLast?_cons, hwritten]
          rfl
        · exact ⟨_, by rw [hnil]; rfl, by rwa [ht] at hrecent⟩
    simp only [streamFrom, hloaded]
    split
    · exact .inl (hwrite _ rfl _)
    · split
      · exact .inl (hwrite _ rfl _)
      · next hquiet =>
        cases rounds with
        | nil =>
          obtain rfl : round = last := Option.some.inj hlast
          exact .inr ⟨rfl, by omega⟩
        | cons next rounds =>
          rw [List.getLast?_cons_cons] at hlast
          exact ih hlast fun r hr => hok r (List.mem_cons_of_mem _ hr)

/-- In every turn the last write is less than fifteen seconds old. -/
theorem stream_never_silent (hempty : ∀ v, digest v ≠ "") (opened : ℕ) {last : StreamRound}
    (hlast : rounds.getLast? = some last)
    (hok : ∀ round ∈ rounds, ∃ value, round.loaded = .ok value) :
    ∃ written, (stream digest event opened rounds).getLast? = some written ∧
      last.now < written.1 + heartbeatInterval := by
  rcases streamFrom_recent (s := ⟨"", opened⟩) hlast hok with h | ⟨hnil, -⟩
  · exact h
  · cases rounds with
    | nil => cases hlast
    | cons round rounds =>
      obtain ⟨value, hloaded⟩ := hok round List.mem_cons_self
      simp only [streamFrom, hloaded, ne_eq, hempty value, not_false_eq_true, if_true] at hnil
      cases hnil

end Silence

theorem stream_never_silent_sample : ∃ written,
    (stream sampleDigest "contest" 0 sampleRounds).getLast? = some written ∧
      2000000000 < written.1 + heartbeatInterval := by
  have hlast : sampleRounds.getLast? = some ⟨.ok (.object []), 2000000000⟩ := rfl
  refine stream_never_silent sampleDigest_ne 0 hlast ?_
  intro round hround
  simp only [sampleRounds, List.mem_cons, List.not_mem_nil, or_false] at hround
  rcases hround with rfl | rfl | rfl <;> exact ⟨_, rfl⟩


/-- The streams, with the parameters of their requests. -/
inductive StreamTopic where
  | contest (board language : Option String)
  | submissions (username : String)

def StreamTopic.event : StreamTopic → String
  | .contest _ _ => "contest"
  | .submissions _ => "submissions"

/-- What a turn of the loop loads. -/
def StreamTopic.load (config : Config) (tie : String → ℕ) (db : Database) :
    StreamTopic → Except AppError (Json String)
  | .contest board language => contestPayload config tie db board language
  | .submissions username =>
      .ok (mapAny [("submissions", serializeSubmissions (submissionsForUser tie username db)
        (privatePublished db).isSome)])

/-- The turns of a stream that finds a database at each of them. -/
def StreamTopic.rounds (config : Config) (tie : String → ℕ) (topic : StreamTopic)
    (found : List (Database × ℕ)) : List StreamRound :=
  found.map fun turn => ⟨topic.load config tie turn.1, turn.2⟩

def StreamEvent.reply : StreamEvent → StreamReply
  | .error body => .message "error" body
  | .change _ event data => .message event data
  | .heartbeat => .message "heartbeat" (.object [])

section Topics
variable {config : Config} {tie : String → ℕ} {digest : Json String → String}

theorem load_withoutPrivate {db : Database} (hpublished : privatePublished db = none)
    (topic : StreamTopic) :
    topic.load config tie db.withoutPrivate = topic.load config tie db := by
  cases topic with
  | contest board language => exact contestPayload_withoutPrivate hpublished board language
  | submissions username =>
    simp only [StreamTopic.load, privatePublished_withoutPrivate, hpublished, Option.isSome_none,
      submissionsForUser_withoutPrivate, serializeSubmissions_withoutPrivate]

/-- A stream that finds databases before the publication writes the same when other private results
are in them, at every turn. -/
theorem streams_samePublic {found found' : List (Database × ℕ)}
    (h : List.Forall₂ (fun turn turn' => privatePublished turn.1 = none ∧
      SamePublic turn.1 turn'.1 ∧ turn.2 = turn'.2) found found')
    (topic : StreamTopic) (opened : ℕ) :
    stream digest topic.event opened (topic.rounds config tie found) =
      stream digest topic.event opened (topic.rounds config tie found') := by
  have hrounds : topic.rounds config tie found = topic.rounds config tie found' := by
    induction h with
    | nil => rfl
    | @cons turn turn' _ _ hturn _ ih =>
      obtain ⟨hpublished, hsame, hnow⟩ := hturn
      have hpublished' : privatePublished turn'.1 = none := by
        rw [← hpublished, privatePublished, privatePublished, hsame.contestState]
      have hload : topic.load config tie turn.1 = topic.load config tie turn'.1 := by
        rw [← load_withoutPrivate hpublished, hsame.withoutPrivate_eq,
          load_withoutPrivate hpublished']
      simp only [StreamTopic.rounds, List.map_cons, hload, hnow]
      exact congrArg _ ih
  rw [hrounds]

/-- The databases that a stream finds before and after a submission is measured, and after it is
measured again. -/
def measuredTurns (first second : Verdict × Option ℕ) : List (Database × ℕ) :=
  [(Database.initial, 0), (measuredDatabase first.1 first.2, 2000000000),
    (measuredDatabase second.1 second.2, 4000000000)]

theorem streams_samePublic_measured :
    stream sampleDigest "contest" 0 ((StreamTopic.contest (some "private") none).rounds
        ⟨"1brc", 0, 10, [], "c7"⟩ (fun _ => 0)
        (measuredTurns (.accepted, some 9) (.accepted, some 8))) =
      stream sampleDigest "contest" 0 ((StreamTopic.contest (some "private") none).rounds
        ⟨"1brc", 0, 10, [], "c7"⟩ (fun _ => 0)
        (measuredTurns (.wrongAnswer, none) (.accepted, some 7))) ∧
    stream sampleDigest "submissions" 0 ((StreamTopic.submissions "alice").rounds
        ⟨"1brc", 0, 10, [], "c7"⟩ (fun _ => 0)
        (measuredTurns (.accepted, some 9) (.accepted, some 8))) =
      stream sampleDigest "submissions" 0 ((StreamTopic.submissions "alice").rounds
        ⟨"1brc", 0, 10, [], "c7"⟩ (fun _ => 0)
        (measuredTurns (.wrongAnswer, none) (.accepted, some 7))) := by
  have hturns : List.Forall₂ (fun turn turn' : Database × ℕ => privatePublished turn.1 = none ∧
      SamePublic turn.1 turn'.1 ∧ turn.2 = turn'.2)
      (measuredTurns (.accepted, some 9) (.accepted, some 8))
      (measuredTurns (.wrongAnswer, none) (.accepted, some 7)) :=
    .cons ⟨rfl, ⟨rfl, rfl, rfl, rfl, rfl⟩, rfl⟩ (.cons ⟨rfl, ⟨rfl, rfl, rfl, rfl, rfl⟩, rfl⟩
      (.cons ⟨rfl, ⟨rfl, rfl, rfl, rfl, rfl⟩, rfl⟩ .nil))
  exact ⟨streams_samePublic hturns (.contest (some "private") none) 0,
    streams_samePublic hturns (.submissions "alice") 0⟩

end Topics
end OneBrc.Server
