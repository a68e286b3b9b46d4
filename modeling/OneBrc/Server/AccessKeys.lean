import Mathlib.Logic.Function.Basic
import OneBrc.Lib.Base64
import OneBrc.Lib.Transition
import OneBrc.Server.Authentication

/-! Access keys: which requests change the table of their digests, and whom a key identifies. Each
request reads the table or changes it with one statement, so that a request is one step. -/
namespace OneBrc.Server.Authentication
open Lib

/-- The key made of random bytes. -/
def accessKey (random : List UInt8) : List UInt8 := bytes "1brc_" ++ Base64.encode random

structure AccessKeyResponse where
  accessKey : List UInt8
  keyPrefix : List UInt8

/-- A statement may fail, or be executed without an acknowledgement. -/
inductive StatementOutcome where
  | done | failed | lost
  deriving DecidableEq

/-- `INSERT ... ON DUPLICATE KEY UPDATE`, where users and digests are keys. There is no result when
the update itself makes a duplicate; a digest of another user is updated to itself. -/
def insertToken (username hash : List UInt8) (rows : List TokenRow) : Option (List TokenRow) :=
  if rows.any (·.username = username) then
    if rows.any fun row => row.username ≠ username && row.tokenHash = hash then none
    else some (rows.map fun row => if row.username = username then ⟨username, hash⟩ else row)
  else if rows.any (·.tokenHash = hash) then some rows
  else some (rows ++ [⟨username, hash⟩])

def deleteToken (username : List UInt8) (rows : List TokenRow) : List TokenRow :=
  rows.filter (·.username ≠ username)

/-- The table after a statement, and what the server knows of it. -/
def perform (outcome : StatementOutcome) (result : Option (List TokenRow)) (rows : List TokenRow) :
    List TokenRow × Except AppError Unit :=
  match outcome, result with
  | .failed, _ => (rows, .error databaseError)
  | _, none => (rows, .error databaseError)
  | .done, some rows => (rows, .ok ())
  | .lost, some rows => (rows, .error databaseError)

/-- No random bytes are given when they cannot be read. -/
def issueAccessKey (sha256 : List UInt8 → List UInt8) (random : Option (List UInt8))
    (outcome : StatementOutcome) (username : List UInt8) (rows : List TokenRow) :
    List TokenRow × Except AppError AccessKeyResponse :=
  match random with
  | none =>
      (rows, .error ⟨.infrastructure, "token_generation_failed",
        "アクセスキーを生成できませんでした"⟩)
  | some random =>
      let token := accessKey random
      let (rows, acknowledged) := perform outcome (insertToken username (sha256 token) rows) rows
      (rows, acknowledged.map fun _ => ⟨token, token.take 13⟩)

def revokeAccessKey (outcome : StatementOutcome) (username : List UInt8) (rows : List TokenRow) :
    List TokenRow × Except AppError Unit :=
  perform outcome (some (deleteToken username rows)) rows

inductive KeyOperation where
  | issue (random : Option (List UInt8))
  | revoke

def KeyOperation.method : KeyOperation → List UInt8
  | .issue _ => bytes "POST"
  | .revoke => bytes "DELETE"

/-- A request for the route of the access key, and how its statements end. -/
structure KeyCall where
  request : Request
  operation : KeyOperation
  queryFails : Bool
  insertFails : Bool
  outcome : StatementOutcome

def accessKeyPath : List UInt8 := bytes "/api/v1/access-key"

section Calls
variable (config : AuthConfig) (sha256 : List UInt8 → List UInt8)

/-- The user whose key a request may change. -/
def KeyCall.caller (call : KeyCall) (rows : List TokenRow) : Except AppError AuthUser := do
  let authenticated ← apiAuthenticationMiddleware config sha256
    ⟨rows, call.queryFails, call.insertFails⟩ call.request
  requireHeaderUser authenticated

/-- The handlers `IssueAccessKey` and `RevokeAccessKey`: the table after the request, and the key
that is sent. -/
def KeyCall.handle (call : KeyCall) (rows : List TokenRow) :
    List TokenRow × Except AppError (Option AccessKeyResponse) :=
  match call.caller config sha256 rows with
  | .error e => (rows, .error e)
  | .ok user =>
      match call.operation with
      | .issue random =>
          let (rows, issued) := issueAccessKey sha256 random call.outcome user.username rows
          (rows, issued.map some)
      | .revoke =>
          let (rows, revoked) := revokeAccessKey call.outcome user.username rows
          (rows, revoked.map fun _ => none)

end Calls

/-- What the table is for: each user has one key or none. -/
abbrev Keys := List UInt8 → Option (List UInt8)

/-- The keys after a request of a user; a statement that is executed counts, also without an
acknowledgement. -/
def Keys.apply (keys : Keys) (call : KeyCall) (username : List UInt8) : Keys :=
  if call.outcome = .failed then keys
  else match call.operation with
    | .issue none => keys
    | .issue (some random) => Function.update keys username (some (accessKey random))
    | .revoke => Function.update keys username none

def KeyOperation.drawn : KeyOperation → List (List UInt8)
  | .issue (some random) => [random]
  | _ => []

/-- The table, the random bytes drawn so far, and the keys of the users. -/
structure KeyState where
  rows : List TokenRow
  drawn : List (List UInt8)
  keys : Keys

section System
variable (config : AuthConfig) (sha256 : List UInt8 → List UInt8)

def keyStep (s : KeyState) (call : KeyCall) : Option KeyState :=
  if call.request.path = accessKeyPath ∧ call.request.method = call.operation.method then
    some {
      rows := (call.handle config sha256 s.rows).1
      drawn := call.operation.drawn ++ s.drawn
      keys := match call.caller config sha256 s.rows with
        | .error _ => s.keys
        | .ok user => s.keys.apply call user.username }
  else none

def keySystem : TransitionSystem KeyState KeyCall :=
  ⟨⟨[], [], fun _ => none⟩, keyStep config sha256⟩

/-- Random bytes are not drawn twice, and the digests of keys tell them apart. -/
def FreshDraw (s : KeyState) (call : KeyCall) : Prop :=
  ∀ random ∈ call.operation.drawn, random ∉ s.drawn ∧
    ∀ old ∈ s.drawn, sha256 (accessKey random) = sha256 (accessKey old) →
      accessKey random = accessKey old

end System

theorem accessKey_injective : Function.Injective accessKey :=
  fun _ _ h => Base64.encode_injective (List.append_cancel_left h)

section Statements
variable {rows : List TokenRow} {username hash : List UInt8} {row : TokenRow}

theorem mem_deleteToken :
    row ∈ deleteToken username rows ↔ row ∈ rows ∧ row.username ≠ username := by
  simp [deleteToken]

/-- A digest that no row has is written to the row of the user, which is added if it is missing. -/
theorem insertToken_fresh (username : List UInt8) (h : ∀ row ∈ rows, row.tokenHash ≠ hash) :
    ∃ rows', insertToken username hash rows = some rows' ∧
      ∀ row, row ∈ rows' ↔
        row = ⟨username, hash⟩ ∨ row ∈ rows ∧ row.username ≠ username := by
  by_cases hmem : ∃ row ∈ rows, row.username = username
  · have hany : rows.any (fun row => decide (row.username = username)) = true := by
      simpa using hmem
    have hother :
        ¬ rows.any (fun row => row.username ≠ username && row.tokenHash = hash) = true := by
      intro hany
      obtain ⟨row, hrow, hhash⟩ := List.any_eq_true.mp hany
      rw [Bool.and_eq_true, decide_eq_true_eq] at hhash
      exact h row hrow (of_decide_eq_true hhash.2)
    refine ⟨_, by rw [insertToken, if_pos hany, if_neg hother], fun row => ?_⟩
    rw [List.mem_map]
    constructor
    · rintro ⟨old, hold, rfl⟩
      by_cases hname : old.username = username
      · rw [if_pos hname]
        exact .inl rfl
      · rw [if_neg hname]
        exact .inr ⟨hold, hname⟩
    · rintro (rfl | ⟨hrow, hname⟩)
      · obtain ⟨old, hold, hname⟩ := hmem
        exact ⟨old, hold, if_pos hname⟩
      · exact ⟨row, hrow, if_neg hname⟩
  · have hany : ¬ rows.any (fun row => decide (row.username = username)) = true := by
      simpa using hmem
    have hhash : ¬ rows.any (fun row => decide (row.tokenHash = hash)) = true := by
      simpa using h
    refine ⟨_, by rw [insertToken, if_neg hany, if_neg hhash], fun row => ?_⟩
    rw [List.mem_append, List.mem_singleton, or_comm]
    exact or_congr_right ⟨fun hrow => ⟨hrow, fun hname => hmem ⟨row, hrow, hname⟩⟩, And.left⟩

theorem perform_fst {outcome : StatementOutcome} {rows rows' : List TokenRow} :
    (perform outcome (some rows') rows).1 = if outcome = .failed then rows else rows' := by
  cases outcome <;> rfl

end Statements

/-- The key that a request presents. -/
def Request.token (request : Request) : List UInt8 :=
  trimPrefix (bytes "Bearer ") request.authorization

section Requests
variable {config : AuthConfig} {sha256 : List UInt8 → List UInt8} {rows : List TokenRow}
  {request : Request} {call : KeyCall} {user : AuthUser}

theorem TokenRequest.api (h : TokenRequest request) : bytes "/api/" <+: request.path := by
  rcases h with ⟨hpath, -⟩ | ⟨-, id, hpath, -, -⟩
  · rw [hpath]
    decide +kernel
  · rw [hpath]
    have hstart : bytes "/api/" <+: bytes "/api/v1/submissions/" := by decide +kernel
    exact hstart.trans (List.prefix_append _ _)

/-- A request with a key is made by the user of the row with its digest. -/
theorem middleware_key (hlength : ∀ text, (sha256 text).length = 32) (htried : KeyTried request) :
    apiAuthenticationMiddleware config sha256 ⟨rows, false, false⟩ request =
      .ok ((rows.find? (·.tokenHash = sha256 request.token)).map fun row =>
        ⟨row.username, false, .token, row.tokenHash⟩) := by
  have hestablish : establish config sha256 ⟨rows, false, false⟩ request =
      .ok ((rows.find? (·.tokenHash = sha256 request.token)).map fun row =>
        ⟨row.username, false, .token, row.tokenHash⟩) := by
    rw [establish, if_pos ⟨htried.1, tokenMayAuthenticate_iff.mpr htried.2⟩]
    simp only [TokenStore.userForToken, Bool.false_eq_true, if_false]
    rw [← Request.token]
    cases hfind : rows.find? (·.tokenHash = sha256 request.token) with
    | none => rfl
    | some row =>
      have hhash : row.tokenHash = sha256 request.token := by
        simpa using List.find?_some hfind
      have hlong : ¬ (sha256 request.token).length ≠ 32 := by rw [hlength, not_not]
      simp only [hhash, if_neg hlong, bind, Except.bind, Option.filter, decide_true, if_true,
        Option.map_some]
  rw [apiAuthenticationMiddleware, if_pos htried.2.api, authenticationMiddleware, hestablish]
  cases rows.find? (·.tokenHash = sha256 request.token) with
  | none => rfl
  | some row => rfl

/-- Only a user whom the proxy names, in a request from the origin of the application, changes a
key. -/
theorem caller_ok (h : call.caller config sha256 rows = .ok user) :
    config.trustProxyHeader = true ∧ user.username = call.request.forwardedUser ∧
      usernamePattern call.request.forwardedUser = true ∧
      (call.request.method ≠ bytes "GET" → call.request.method ≠ bytes "HEAD" →
        call.request.method ≠ bytes "OPTIONS" → call.request.origin = config.appOrigin) := by
  obtain ⟨authenticated, hok, h⟩ := Fallible.bind_eq_ok.mp h
  have hsome : authenticated = some user ∧ user.method = .header := by
    cases authenticated with
    | none => cases h
    | some found =>
      obtain ⟨user', huser, h⟩ := Fallible.bind_eq_ok.mp h
      obtain rfl : found = user' := Except.ok.inj huser
      split_ifs at h with hmethod
      · obtain rfl := Except.ok.inj h
        exact ⟨rfl, not_not.mp hmethod⟩
  obtain ⟨rfl, hheader⟩ := hsome
  have horigin := (apiAuthenticationMiddleware_sound hok).2.2 user rfl hheader
  unfold apiAuthenticationMiddleware at hok
  split_ifs at hok with hpath
  · obtain ⟨hestablished, -⟩ := authenticationMiddleware_ok hok
    rcases establish_some hestablished with ⟨-, htoken, -⟩ | ⟨-, hproxy, -, hname, hpattern⟩
    · rw [hheader] at htoken
      cases htoken
    · exact ⟨hproxy, hname, hpattern, horigin⟩
  · cases hok

end Requests

/-- The table holds the digests of the keys of the users, each of which has one owner. -/
structure KeysKept (sha256 : List UInt8 → List UInt8) (s : KeyState) : Prop where
  agree : ∀ row, row ∈ s.rows ↔
    ∃ key, s.keys row.username = some key ∧ row.tokenHash = sha256 key
  drawn : ∀ username key, s.keys username = some key → ∃ random ∈ s.drawn, key = accessKey random
  owner : ∀ username username' key, s.keys username = some key → s.keys username' = some key →
    username = username'
  distinct : ∀ random ∈ s.drawn, ∀ random' ∈ s.drawn,
    sha256 (accessKey random) = sha256 (accessKey random') → accessKey random = accessKey random'

/-- The origin is checked before both operations. -/
theorem KeyOperation.method_ne (operation : KeyOperation) :
    operation.method ≠ bytes "GET" ∧ operation.method ≠ bytes "HEAD" ∧
      operation.method ≠ bytes "OPTIONS" := by
  have hpost : bytes "POST" ≠ bytes "GET" ∧ bytes "POST" ≠ bytes "HEAD" ∧
      bytes "POST" ≠ bytes "OPTIONS" := by decide +kernel
  have hdelete : bytes "DELETE" ≠ bytes "GET" ∧ bytes "DELETE" ≠ bytes "HEAD" ∧
      bytes "DELETE" ≠ bytes "OPTIONS" := by decide +kernel
  cases operation with
  | issue random => exact hpost
  | revoke => exact hdelete

section Steps
variable {config : AuthConfig} {sha256 : List UInt8 → List UInt8} {s t : KeyState}
  {call : KeyCall} {user : AuthUser} {username : List UInt8}

theorem KeysKept.fresh_hash (h : KeysKept sha256 s) {random : List UInt8}
    (hdrawn : random ∈ call.operation.drawn) (hfresh : FreshDraw sha256 s call) :
    ∀ row ∈ s.rows, row.tokenHash ≠ sha256 (accessKey random) := by
  intro row hrow heq
  obtain ⟨hnew, hdistinct⟩ := hfresh random hdrawn
  obtain ⟨key, hkey, hhash⟩ := (h.agree row).mp hrow
  obtain ⟨old, hold, rfl⟩ := h.drawn _ _ hkey
  have hsame := hdistinct old hold (heq.symm.trans hhash)
  exact hnew (accessKey_injective hsame ▸ hold)

/-- What one request of a user does to the table and to the keys. -/
inductive KeyEffect (sha256 : List UInt8 → List UInt8) (s : KeyState) (call : KeyCall)
    (username : List UInt8) (rows : List TokenRow) (keys : Keys) : Prop
  | nothing (hrows : rows = s.rows) (hkeys : keys = s.keys)
  | issued (random : List UInt8) (hdrawn : random ∈ call.operation.drawn)
      (hrows : ∀ row, row ∈ rows ↔ row = ⟨username, sha256 (accessKey random)⟩ ∨
        row ∈ s.rows ∧ row.username ≠ username)
      (hkeys : keys = Function.update s.keys username (some (accessKey random)))
  | revoked (hrows : ∀ row, row ∈ rows ↔ row ∈ s.rows ∧ row.username ≠ username)
      (hkeys : keys = Function.update s.keys username none)

theorem keyEffect (h : KeysKept sha256 s) (hfresh : FreshDraw sha256 s call)
    (hcaller : call.caller config sha256 s.rows = .ok user) :
    KeyEffect sha256 s call user.username (call.handle config sha256 s.rows).1
      (s.keys.apply call user.username) := by
  unfold KeyCall.handle Keys.apply
  rw [hcaller]
  by_cases hfailed : call.outcome = .failed
  · refine .nothing ?_ (if_pos hfailed)
    rw [hfailed]
    cases call.operation with
    | issue random => cases random <;> rfl
    | revoke => rfl
  · rw [if_neg hfailed]
    cases hoperation : call.operation with
    | issue random =>
      cases random with
      | none => exact .nothing rfl rfl
      | some random =>
        have hdrawn : random ∈ call.operation.drawn := by
          rw [hoperation]
          exact List.mem_singleton_self random
        obtain ⟨rows', hrows', hmem⟩ := insertToken_fresh user.username
          (h.fresh_hash hdrawn hfresh)
        refine .issued random hdrawn ?_ rfl
        simp only [issueAccessKey, hrows', perform_fst, if_neg hfailed]
        exact hmem
    | revoke =>
      refine .revoked ?_ rfl
      simp only [revokeAccessKey, perform_fst, if_neg hfailed]
      exact fun row => mem_deleteToken

theorem keyStep_of_caller (hroute : call.request.path = accessKeyPath ∧
      call.request.method = call.operation.method)
    (hcaller : call.caller config sha256 s.rows = .ok user) :
    keyStep config sha256 s call = some ⟨(call.handle config sha256 s.rows).1,
      call.operation.drawn ++ s.drawn, s.keys.apply call user.username⟩ := by
  rw [keyStep, if_pos hroute, hcaller]

/-- A request without a user changes nothing. -/
theorem keyStep_cases (h : KeysKept sha256 s) (hfresh : FreshDraw sha256 s call)
    (hstep : keyStep config sha256 s call = some t) :
    t.drawn = call.operation.drawn ++ s.drawn ∧
      (t.rows = s.rows ∧ t.keys = s.keys ∨
        ∃ user, call.caller config sha256 s.rows = .ok user ∧
          call.request.method = call.operation.method ∧
          KeyEffect sha256 s call user.username t.rows t.keys) := by
  unfold keyStep at hstep
  split_ifs at hstep with hroute
  obtain rfl := Option.some.inj hstep
  refine ⟨rfl, ?_⟩
  cases hcaller : call.caller config sha256 s.rows with
  | error e =>
    left
    simp only [KeyCall.handle, hcaller, and_self]
  | ok user => exact .inr ⟨user, rfl, hroute.2, keyEffect h hfresh hcaller⟩

theorem distinct_step (h : KeysKept sha256 s) (hfresh : FreshDraw sha256 s call) :
    ∀ random ∈ call.operation.drawn ++ s.drawn, ∀ random' ∈ call.operation.drawn ++ s.drawn,
      sha256 (accessKey random) = sha256 (accessKey random') →
        accessKey random = accessKey random' := by
  have hsingle : ∀ random ∈ call.operation.drawn, ∀ random' ∈ call.operation.drawn,
      random = random' := by
    intro random hrandom random' hrandom'
    cases hoperation : call.operation with
    | issue drawn =>
      rw [hoperation] at hrandom hrandom'
      cases drawn with
      | none => cases hrandom
      | some drawn => rw [List.mem_singleton.mp hrandom, List.mem_singleton.mp hrandom']
    | revoke =>
      rw [hoperation] at hrandom
      cases hrandom
  intro random hrandom random' hrandom' heq
  rcases List.mem_append.mp hrandom with hnew | hold <;>
    rcases List.mem_append.mp hrandom' with hnew' | hold'
  · rw [hsingle random hnew random' hnew']
  · exact (hfresh random hnew).2 random' hold' heq
  · exact ((hfresh random' hnew').2 random hold heq.symm).symm
  · exact h.distinct random hold random' hold' heq

theorem KeysKept.step (h : KeysKept sha256 s) (hfresh : FreshDraw sha256 s call)
    (hstep : keyStep config sha256 s call = some t) : KeysKept sha256 t := by
  obtain ⟨hdrawn, hcases⟩ := keyStep_cases h hfresh hstep
  have hdistinct := distinct_step h hfresh
  rw [← hdrawn] at hdistinct
  have hmono : ∀ random ∈ s.drawn, random ∈ t.drawn := fun random hrandom => by
    rw [hdrawn]
    exact List.mem_append_right _ hrandom
  have hold : ∀ username key, s.keys username = some key →
      ∃ random ∈ t.drawn, key = accessKey random := by
    intro username key hkey
    obtain ⟨random, hrandom, heq⟩ := h.drawn username key hkey
    exact ⟨random, hmono random hrandom, heq⟩
  rcases hcases with ⟨hrows, hkeys⟩ | ⟨user, -, -, heffect⟩
  · exact ⟨by rw [hrows, hkeys]; exact h.agree, by rw [hkeys]; exact hold,
      by rw [hkeys]; exact h.owner, hdistinct⟩
  cases heffect with
  | nothing hrows hkeys =>
    exact ⟨by rw [hrows, hkeys]; exact h.agree, by rw [hkeys]; exact hold,
      by rw [hkeys]; exact h.owner, hdistinct⟩
  | issued random hrandom hrows hkeys =>
    have hnew : ∀ username, s.keys username ≠ some (accessKey random) := by
      intro username hkey
      obtain ⟨old, hmem, heq⟩ := h.drawn username _ hkey
      exact (hfresh random hrandom).1 (accessKey_injective heq ▸ hmem)
    refine ⟨fun row => ?_, fun username key hkey => ?_, fun username username' key hkey hkey' => ?_,
      hdistinct⟩
    · rw [hrows, hkeys]
      by_cases hname : row.username = user.username
      · rw [hname, Function.update_self]
        constructor
        · rintro (rfl | ⟨-, hne⟩)
          · exact ⟨_, rfl, rfl⟩
          · exact absurd rfl hne
        · rintro ⟨key, hkey, hhash⟩
          obtain rfl := Option.some.inj hkey
          left
          rw [← hname, ← hhash]
      · rw [Function.update_of_ne hname, ← h.agree]
        constructor
        · rintro (rfl | ⟨hrow, -⟩)
          · exact absurd rfl hname
          · exact hrow
        · exact fun hrow => .inr ⟨hrow, hname⟩
    · rw [hkeys] at hkey
      by_cases hname : username = user.username
      · rw [hname, Function.update_self] at hkey
        refine ⟨random, ?_, (Option.some.inj hkey).symm⟩
        rw [hdrawn]
        exact List.mem_append_left _ hrandom
      · rw [Function.update_of_ne hname] at hkey
        exact hold username key hkey
    · rw [hkeys] at hkey hkey'
      by_cases hname : username = user.username <;> by_cases hname' : username' = user.username
      · rw [hname, hname']
      · rw [hname, Function.update_self] at hkey
        rw [Function.update_of_ne hname', ← hkey] at hkey'
        exact absurd hkey' (hnew username')
      · rw [hname', Function.update_self] at hkey'
        rw [Function.update_of_ne hname, ← hkey'] at hkey
        exact absurd hkey (hnew username)
      · rw [Function.update_of_ne hname] at hkey
        rw [Function.update_of_ne hname'] at hkey'
        exact h.owner username username' key hkey hkey'
  | revoked hrows hkeys =>
    have hkept : ∀ {username key}, t.keys username = some key →
        username ≠ user.username ∧ s.keys username = some key := by
      intro username key hkey
      rw [hkeys] at hkey
      by_cases hname : username = user.username
      · rw [hname, Function.update_self] at hkey
        cases hkey
      · rw [Function.update_of_ne hname] at hkey
        exact ⟨hname, hkey⟩
    refine ⟨fun row => ?_, fun username key hkey => hold username key (hkept hkey).2,
      fun username username' key hkey hkey' =>
        h.owner username username' key (hkept hkey).2 (hkept hkey').2, hdistinct⟩
    rw [hrows, h.agree, hkeys]
    by_cases hname : row.username = user.username
    · rw [hname, Function.update_self]
      simp
    · rw [Function.update_of_ne hname]
      simp [hname]

end Steps

section Runs
variable {config : AuthConfig} {sha256 : List UInt8 → List UInt8} {s t : KeyState}

theorem keysKept (h : (keySystem config sha256).Reachable (FreshDraw sha256) s) :
    KeysKept sha256 s := by
  have hinit : KeysKept sha256 (keySystem config sha256).init := by
    refine ⟨fun row => ⟨fun hrow => ?_, ?_⟩, fun _ _ hkey => ?_, fun _ _ _ hkey => ?_,
      fun _ hrandom => ?_⟩
    · cases hrow
    · rintro ⟨key, hkey, -⟩
      cases hkey
    · cases hkey
    · cases hkey
    · cases hrandom
  exact h.invariant hinit fun hs hfresh hstep => hs.step hfresh hstep

/-- A key whose digest is no other key's digest identifies its owner, from the statement that stores
it until the statement that replaces or deletes it, and nobody else at any time. -/
theorem key_identifies_owner (hlength : ∀ text, (sha256 text).length = 32)
    (h : (keySystem config sha256).Reachable (FreshDraw sha256) s) {request : Request}
    (htried : KeyTried request) (hdistinct : ∀ random ∈ s.drawn,
      sha256 request.token = sha256 (accessKey random) → request.token = accessKey random)
    (user : AuthUser) :
    apiAuthenticationMiddleware config sha256 ⟨s.rows, false, false⟩ request = .ok (some user) ↔
      s.keys user.username = some request.token ∧
        user = ⟨user.username, false, .token, sha256 request.token⟩ := by
  have hkept := keysKept h
  rw [middleware_key hlength htried]
  constructor
  · intro hok
    obtain ⟨row, hfind, rfl⟩ := Option.map_eq_some_iff.mp (Except.ok.inj hok)
    have hhash : row.tokenHash = sha256 request.token := by simpa using List.find?_some hfind
    obtain ⟨key, hkey, hdigest⟩ := (hkept.agree row).mp (List.mem_of_find?_eq_some hfind)
    obtain ⟨random, hrandom, rfl⟩ := hkept.drawn _ _ hkey
    have htoken := hdistinct random hrandom (hhash.symm.trans hdigest)
    exact ⟨by rw [htoken]; exact hkey, by rw [hhash]⟩
  · rintro ⟨hkey, huser⟩
    have hrow : (⟨user.username, sha256 request.token⟩ : TokenRow) ∈ s.rows :=
      (hkept.agree _).mpr ⟨_, hkey, rfl⟩
    cases hfind : s.rows.find? (·.tokenHash = sha256 request.token) with
    | none =>
      have hmissing := List.find?_eq_none.mp hfind _ hrow
      simp at hmissing
    | some row =>
      have hhash : row.tokenHash = sha256 request.token := by simpa using List.find?_some hfind
      obtain ⟨key, hkey', hdigest⟩ := (hkept.agree row).mp (List.mem_of_find?_eq_some hfind)
      obtain ⟨random, hrandom, rfl⟩ := hkept.drawn _ _ hkey'
      have htoken := hdistinct random hrandom (hhash.symm.trans hdigest)
      rw [htoken] at hkey
      have hname := hkept.owner _ _ _ hkey hkey'
      rw [Option.map_some, huser, hname, hhash]

/-- A key that was drawn and that no user has is a stranger's key for good. -/
theorem old_key_refused (hlength : ∀ text, (sha256 text).length = 32)
    (h : (keySystem config sha256).Reachable (FreshDraw sha256) s)
    (hpath : (keySystem config sha256).Path (FreshDraw sha256) s t) {random : List UInt8}
    (hrandom : random ∈ s.drawn) (hold : ∀ username, s.keys username ≠ some (accessKey random))
    {request : Request} (htried : KeyTried request) (htoken : request.token = accessKey random) :
    apiAuthenticationMiddleware config sha256 ⟨t.rows, false, false⟩ request = .ok none := by
  have hinv : KeysKept sha256 t ∧ random ∈ t.drawn ∧
      ∀ username, t.keys username ≠ some (accessKey random) := by
    refine hpath.invariant (I := fun t => KeysKept sha256 t ∧ random ∈ t.drawn ∧
      ∀ username, t.keys username ≠ some (accessKey random)) ?_ ⟨keysKept h, hrandom, hold⟩
    rintro s call t ⟨hkept, hdrawn, hmissing⟩ hfresh hstep
    obtain ⟨hdrawn', hcases⟩ := keyStep_cases hkept hfresh hstep
    refine ⟨hkept.step hfresh hstep, by rw [hdrawn']; exact List.mem_append_right _ hdrawn, ?_⟩
    intro username
    rcases hcases with ⟨-, hkeys⟩ | ⟨user, -, -, heffect⟩
    · rw [hkeys]
      exact hmissing username
    cases heffect with
    | nothing _ hkeys =>
      rw [hkeys]
      exact hmissing username
    | issued new hnew _ hkeys =>
      rw [hkeys, Function.update_apply]
      split
      · intro heq
        exact (hfresh new hnew).1 (accessKey_injective (Option.some.inj heq) ▸ hdrawn)
      · exact hmissing username
    | revoked _ hkeys =>
      rw [hkeys, Function.update_apply]
      split
      · exact nofun
      · exact hmissing username
  obtain ⟨hkept, hdrawn, hmissing⟩ := hinv
  have hreach : (keySystem config sha256).Reachable (FreshDraw sha256) t := h.path hpath
  have hdistinct : ∀ random' ∈ t.drawn, sha256 request.token = sha256 (accessKey random') →
      request.token = accessKey random' := by
    intro random' hrandom' heq
    rw [htoken] at heq ⊢
    exact hkept.distinct random hdrawn random' hrandom' heq
  rw [middleware_key hlength htried]
  cases hfind : t.rows.find? (·.tokenHash = sha256 request.token) with
  | none => rfl
  | some row =>
    have hok : apiAuthenticationMiddleware config sha256 ⟨t.rows, false, false⟩ request = _ :=
      middleware_key hlength htried
    rw [hfind, Option.map_some] at hok
    have hkey := ((key_identifies_owner hlength hreach htried hdistinct _).mp hok).1
    rw [htoken] at hkey
    exact absurd hkey (hmissing _)

/-- A request that the proxy vouches for, from the origin of the application. -/
structure KeyCall.ByOwner (config : AuthConfig) (call : KeyCall) (username : List UInt8) :
    Prop where
  proxied : config.trustProxyHeader = true
  named : call.request.forwardedUser = username
  valid : usernamePattern username = true
  origin : call.request.origin = config.appOrigin

/-- The key of a user is the same until the user's own request changes it. -/
theorem key_kept {username : List UInt8}
    (h : (keySystem config sha256).Reachable (FreshDraw sha256) s)
    (hpath : (keySystem config sha256).Path
      (fun s call => FreshDraw sha256 s call ∧ ¬call.ByOwner config username) s t) :
    t.keys username = s.keys username := by
  have hinv : KeysKept sha256 t ∧ t.keys username = s.keys username := by
    refine hpath.invariant (I := fun t => KeysKept sha256 t ∧ t.keys username = s.keys username)
      ?_ ⟨keysKept h, rfl⟩
    rintro s' call t ⟨hkept, hsame⟩ ⟨hfresh, howner⟩ hstep
    obtain ⟨-, hcases⟩ := keyStep_cases hkept hfresh hstep
    refine ⟨hkept.step hfresh hstep, ?_⟩
    rcases hcases with ⟨-, hkeys⟩ | ⟨user, hcaller, hmethod, heffect⟩
    · rw [hkeys, hsame]
    have hname : username ≠ user.username := by
      rintro rfl
      obtain ⟨hproxy, hforwarded, hpattern, horigin⟩ := caller_ok hcaller
      obtain ⟨hget, hhead, hoptions⟩ := call.operation.method_ne
      rw [← hmethod] at hget hhead hoptions
      exact howner ⟨hproxy, hforwarded.symm, hforwarded ▸ hpattern, horigin hget hhead hoptions⟩
    cases heffect with
    | nothing _ hkeys => rw [hkeys, hsame]
    | issued _ _ _ hkeys => rw [hkeys, Function.update_of_ne hname, hsame]
    | revoked _ hkeys => rw [hkeys, Function.update_of_ne hname, hsame]
  exact hinv.2

end Runs

section Samples

def sampleRandom (first : ℕ) : List UInt8 := (List.range' first 32).map UInt8.ofNat

/-- The keys of three draws. -/
def sampleKey (first : ℕ) : List UInt8 := accessKey (sampleRandom first)

/-- The SHA-256 digest of `sampleKey 0`. -/
def sampleKeyDigest : List UInt8 :=
  [216, 109, 148, 113, 71, 210, 116, 192, 211, 151, 73, 194, 77, 193, 142, 55, 148, 10, 166, 141,
    175, 134, 174, 11, 9, 215, 238, 134, 233, 115, 61, 84]

/-- The SHA-256 digest of `sampleKey 32`. -/
def otherKeyDigest : List UInt8 :=
  [10, 228, 42, 115, 62, 14, 44, 12, 211, 55, 155, 146, 147, 23, 155, 204, 253, 189, 139, 62, 115,
    166, 136, 75, 22, 174, 237, 141, 15, 178, 25, 9]

/-- The SHA-256 digest of `sampleKey 64`. -/
def newKeyDigest : List UInt8 :=
  [96, 26, 70, 39, 215, 205, 21, 28, 184, 176, 159, 149, 132, 46, 30, 15, 239, 211, 48, 218, 47,
    248, 159, 35, 81, 133, 33, 48, 137, 155, 218, 244]

/-- SHA-256 on the three keys. -/
def sampleSha256 (text : List UInt8) : List UInt8 :=
  if text = sampleKey 0 then sampleKeyDigest
  else if text = sampleKey 32 then otherKeyDigest
  else newKeyDigest

theorem length_sampleSha256 (text : List UInt8) : (sampleSha256 text).length = 32 := by
  unfold sampleSha256
  split_ifs <;> rfl

def sampleConfig : AuthConfig := ⟨true, [], []⟩

def sampleCall (method username : String) (operation : KeyOperation) : KeyCall where
  request := ⟨bytes method, accessKeyPath, [], bytes username, []⟩
  operation := operation
  queryFails := false
  insertFails := false
  outcome := .done

/-- A request for the submissions with `sampleKey 0`. -/
def keyRequest : Request where
  method := bytes "GET"
  path := bytes "/api/v1/submissions"
  authorization := bytes "Bearer " ++ sampleKey 0
  forwardedUser := []
  origin := []

abbrev sampleSystem : TransitionSystem KeyState KeyCall := keySystem sampleConfig sampleSha256

/-- The state after a key is issued to `alice`. -/
def issuedState : KeyState :=
  ⟨[⟨bytes "alice", sampleKeyDigest⟩], [sampleRandom 0],
    Function.update (fun _ => none) (bytes "alice") (some (sampleKey 0))⟩

/-- The state after one is issued to `bob`. -/
def sharedState : KeyState :=
  ⟨[⟨bytes "alice", sampleKeyDigest⟩, ⟨bytes "bob", otherKeyDigest⟩],
    [sampleRandom 32, sampleRandom 0],
    Function.update issuedState.keys (bytes "bob") (some (sampleKey 32))⟩

/-- The state after the key of `alice` is revoked. -/
def revokedState : KeyState :=
  ⟨[⟨bytes "bob", otherKeyDigest⟩], [sampleRandom 32, sampleRandom 0],
    Function.update sharedState.keys (bytes "alice") none⟩

/-- The state after a new one is issued to her. -/
def renewedState : KeyState :=
  ⟨[⟨bytes "bob", otherKeyDigest⟩, ⟨bytes "alice", newKeyDigest⟩],
    [sampleRandom 64, sampleRandom 32, sampleRandom 0],
    Function.update revokedState.keys (bytes "alice") (some (sampleKey 64))⟩

theorem keys_sharedState (username : List UInt8) : sharedState.keys username =
    if username = bytes "bob" then some (sampleKey 32)
    else if username = bytes "alice" then some (sampleKey 0) else none := by
  simp only [sharedState, issuedState, Function.update_apply]

/-- A request of a user for the own key, with the tables before and after it. -/
def Handles (method username : String) (operation : KeyOperation) (rows rows' : List TokenRow) :
    Prop :=
  (sampleCall method username operation).caller sampleConfig sampleSha256 rows =
      .ok ⟨bytes username, false, .header, []⟩ ∧
    ((sampleCall method username operation).handle sampleConfig sampleSha256 rows).1 = rows'

instance (method username : String) (operation : KeyOperation) (rows rows' : List TokenRow) :
    Decidable (Handles method username operation rows rows') :=
  inferInstanceAs (Decidable (_ ∧ _))

theorem handles_sampleCalls :
    Handles "POST" "alice" (.issue (some (sampleRandom 0))) [] issuedState.rows ∧
      Handles "POST" "bob" (.issue (some (sampleRandom 32))) issuedState.rows sharedState.rows ∧
      Handles "DELETE" "alice" .revoke sharedState.rows revokedState.rows ∧
      Handles "POST" "alice" (.issue (some (sampleRandom 64))) revokedState.rows
        renewedState.rows := by
  decide +kernel

/-- The draws, their keys and the digests are different. -/
theorem sampleKeys_distinct : ∀ first ∈ [0, 32, 64], ∀ second ∈ [0, 32, 64], first ≠ second →
    sampleRandom first ≠ sampleRandom second ∧ sampleKey first ≠ sampleKey second ∧
      sampleSha256 (sampleKey first) ≠ sampleSha256 (sampleKey second) := by
  decide +kernel

theorem alice_ne_bob : bytes "alice" ≠ bytes "bob" := by
  decide +kernel

theorem step_sampleCall {s : KeyState} {method username : String} {operation : KeyOperation}
    {rows : List TokenRow} (hmethod : bytes method = operation.method)
    (h : Handles method username operation s.rows rows) :
    sampleSystem.step s (sampleCall method username operation) = some ⟨rows,
      operation.drawn ++ s.drawn,
      s.keys.apply (sampleCall method username operation) (bytes username)⟩ := by
  obtain ⟨hcaller, rfl⟩ := h
  exact keyStep_of_caller ⟨rfl, hmethod⟩ hcaller

theorem freshDraw_revoke (s : KeyState) :
    FreshDraw sampleSha256 s (sampleCall "DELETE" "alice" .revoke) := by
  intro random hrandom
  cases hrandom

/-- A draw that is none of the draws before it. -/
theorem freshDraw_issue {s : KeyState} {username : String} {first : ℕ}
    (hfirst : first ∈ [0, 32, 64])
    (h : ∀ old ∈ s.drawn, ∃ second ∈ [0, 32, 64], first ≠ second ∧ old = sampleRandom second) :
    FreshDraw sampleSha256 s (sampleCall "POST" username (.issue (some (sampleRandom first)))) := by
  intro random hrandom
  obtain rfl := List.mem_singleton.mp hrandom
  refine ⟨fun hmem => ?_, fun old hold heq => ?_⟩
  · obtain ⟨second, hsecond, hne, heq⟩ := h _ hmem
    exact (sampleKeys_distinct first hfirst second hsecond hne).1 heq
  · obtain ⟨second, hsecond, hne, rfl⟩ := h old hold
    exact absurd heq (sampleKeys_distinct first hfirst second hsecond hne).2.2

theorem step_issued : sampleSystem.step sampleSystem.init
    (sampleCall "POST" "alice" (.issue (some (sampleRandom 0)))) = some issuedState :=
  step_sampleCall rfl handles_sampleCalls.1

theorem step_shared : sampleSystem.step issuedState
    (sampleCall "POST" "bob" (.issue (some (sampleRandom 32)))) = some sharedState :=
  step_sampleCall rfl handles_sampleCalls.2.1

theorem step_revoked : sampleSystem.step sharedState (sampleCall "DELETE" "alice" .revoke) =
    some revokedState :=
  step_sampleCall rfl handles_sampleCalls.2.2.1

theorem step_renewed : sampleSystem.step revokedState
    (sampleCall "POST" "alice" (.issue (some (sampleRandom 64)))) = some renewedState :=
  step_sampleCall rfl handles_sampleCalls.2.2.2

theorem freshDraw_renewed : FreshDraw sampleSha256 revokedState
    (sampleCall "POST" "alice" (.issue (some (sampleRandom 64)))) := by
  refine freshDraw_issue (by decide) fun old hold => ?_
  rcases List.mem_pair.mp hold with rfl | rfl
  · exact ⟨32, by decide, by decide, rfl⟩
  · exact ⟨0, by decide, by decide, rfl⟩

theorem reachable_shared : sampleSystem.Reachable (FreshDraw sampleSha256) sharedState := by
  have hissued : sampleSystem.Reachable (FreshDraw sampleSha256) issuedState :=
    .snoc .refl (freshDraw_issue (by decide) nofun) step_issued
  exact hissued.snoc (freshDraw_issue (by decide) fun old hold =>
    ⟨0, by decide, by decide, List.mem_singleton.mp hold⟩) step_shared

theorem keyTried_keyRequest : KeyTried keyRequest := by
  refine ⟨?_, .submissions rfl (.inl rfl)⟩
  decide +kernel

theorem token_keyRequest : keyRequest.token = accessKey (sampleRandom 0) := trimPrefix_append _ _

/-- The key of `alice`, while `bob` has one too. -/
theorem key_identifies_owner_alice :
    apiAuthenticationMiddleware sampleConfig sampleSha256
      ⟨sharedState.rows, false, false⟩ keyRequest =
        .ok (some ⟨bytes "alice", false, .token, sampleKeyDigest⟩) := by
  have hdigest : sampleSha256 keyRequest.token = sampleKeyDigest := by
    rw [token_keyRequest]
    exact if_pos rfl
  refine (key_identifies_owner length_sampleSha256 reachable_shared keyTried_keyRequest ?_ _).mpr
    ⟨?_, by rw [hdigest]⟩
  · intro random hrandom heq
    rw [token_keyRequest] at heq ⊢
    rcases List.mem_pair.mp hrandom with rfl | rfl
    · exact absurd heq (sampleKeys_distinct 0 (by decide) 32 (by decide) (by decide)).2.2
    · rfl
  · rw [token_keyRequest]
    exact (keys_sharedState _).trans ((if_neg alice_ne_bob).trans (if_pos rfl))

/-- The key that `alice` revoked, after a new one was issued to her. -/
theorem old_key_refused_revoked :
    apiAuthenticationMiddleware sampleConfig sampleSha256
      ⟨renewedState.rows, false, false⟩ keyRequest = .ok none := by
  have hrevoked : sampleSystem.Reachable (FreshDraw sampleSha256) revokedState :=
    reachable_shared.snoc (freshDraw_revoke _) step_revoked
  have hpath : sampleSystem.Path (FreshDraw sampleSha256) revokedState renewedState :=
    .snoc _ .refl freshDraw_renewed step_renewed
  refine old_key_refused length_sampleSha256 hrevoked hpath
    (List.mem_cons_of_mem _ List.mem_cons_self) (fun username => ?_) keyTried_keyRequest
    token_keyRequest
  simp only [revokedState, Function.update_apply, keys_sharedState]
  split_ifs
  · exact nofun
  · intro heq
    exact (sampleKeys_distinct 32 (by decide) 0 (by decide) (by decide)).2.1 (Option.some.inj heq)
  · exact nofun

/-- The key of `bob` is not changed when `alice` revokes hers and is issued a new one. -/
theorem key_kept_bob : renewedState.keys (bytes "bob") = some (sampleKey 32) := by
  have hother (operation : KeyOperation) (method : String) :
      ¬(sampleCall method "alice" operation).ByOwner sampleConfig (bytes "bob") :=
    fun howner => alice_ne_bob howner.named
  have hkept : renewedState.keys (bytes "bob") = sharedState.keys (bytes "bob") :=
    key_kept reachable_shared
      (.snoc _ (.snoc _ .refl ⟨freshDraw_revoke _, hother _ _⟩ step_revoked)
        ⟨freshDraw_renewed, hother _ _⟩ step_renewed)
  rw [hkept, keys_sharedState, if_pos rfl]

end Samples
end OneBrc.Server.Authentication
