import OneBrc.Server.Upload

/-! The middleware that finds out who makes a request, by an access key or by the header of the
proxy, and the guards of the handlers. -/
namespace OneBrc.Server.Authentication
open Lib

inductive AuthMethod where
  | token | header
  deriving DecidableEq

structure AuthUser where
  username : List UInt8
  isAdmin : Bool
  method : AuthMethod
  tokenHash : List UInt8
  deriving DecidableEq

structure AuthConfig where
  trustProxyHeader : Bool
  admins : List (List UInt8)
  appOrigin : List UInt8

/-- A header that is absent is empty. -/
structure Request where
  method : List UInt8
  path : List UInt8
  authorization : List UInt8
  forwardedUser : List UInt8
  origin : List UInt8

structure TokenRow where
  username : List UInt8
  tokenHash : List UInt8
  deriving DecidableEq

/-- The stored tokens, and which of the two statements fail. -/
structure TokenStore where
  rows : List TokenRow
  queryFails : Bool
  insertFails : Bool

def trimPrefix (start text : List UInt8) : List UInt8 :=
  if start <+: text then text.drop start.length else text

/-- A byte of the class of `uuidPattern`, which ignores the case. -/
def hexOrDash (b : UInt8) : Bool :=
  48 ≤ b && b ≤ 57 || 65 ≤ b && b ≤ 70 || 97 ≤ b && b ≤ 102 || b = 45

def uuidPattern (text : List UInt8) : Bool := text.length = 36 && text.all hexOrDash

def usernameByte (b : UInt8) : Bool :=
  65 ≤ b && b ≤ 90 || 97 ≤ b && b ≤ 122 || 48 ≤ b && b ≤ 57 || b = 95 || b = 45

def usernamePattern (text : List UInt8) : Bool :=
  1 ≤ text.length && text.length ≤ 64 && text.all usernameByte

def tokenMayAuthenticate (method path : List UInt8) : Bool :=
  if path = bytes "/api/v1/submissions" then method = bytes "GET" || method = bytes "POST"
  else if method ≠ bytes "GET" ∨ ¬bytes "/api/v1/submissions/" <+: path then false
  else
    let tail := trimPrefix (bytes "/api/v1/submissions/") path
    !tail.contains 47 && uuidPattern tail

def TokenStore.userForToken (store : TokenStore) (hash : List UInt8) :
    Except AppError (Option AuthUser) :=
  if store.queryFails then .error databaseError
  else match store.rows.find? (·.tokenHash = hash) with
    | none => .ok none
    | some row =>
        if row.tokenHash.length ≠ 32 then .ok none
        else .ok (some ⟨row.username, false, .token, row.tokenHash⟩)

def TokenStore.ensureUser (store : TokenStore) : Except AppError Unit :=
  if store.insertFails then .error databaseError else .ok ()

section Middleware
variable (config : AuthConfig) (sha256 : List UInt8 → List UInt8) (store : TokenStore)
  (request : Request)

/-- The user of `authenticationMiddleware` before the row of the user is ensured. -/
def establish : Except AppError (Option AuthUser) :=
  if bytes "Bearer 1brc_" <+: request.authorization ∧
      tokenMayAuthenticate request.method request.path then do
    let token := trimPrefix (bytes "Bearer ") request.authorization
    let digest := sha256 token
    let found ← store.userForToken digest
    .ok (found.filter (·.tokenHash = digest))
  else if config.trustProxyHeader then
    let forwarded := request.forwardedUser
    if usernamePattern forwarded then
      .ok (some ⟨forwarded, config.admins.contains forwarded, .header, []⟩)
    else .ok none
  else .ok none

def invalidOrigin : AppError := ⟨.forbidden, "invalid_origin", "Originが一致しません"⟩

/-- The user with which the next handler is called, or the error that is written instead. -/
def authenticationMiddleware : Except AppError (Option AuthUser) := do
  let user ← establish config sha256 store request
  let _ ← (if user.isSome then store.ensureUser else .ok ())
  if user.any (·.method = .header) ∧ request.method ≠ bytes "GET" ∧
      request.method ≠ bytes "HEAD" ∧ request.method ≠ bytes "OPTIONS" ∧
      request.origin ≠ config.appOrigin then .error invalidOrigin
  else .ok user

/-- Requests for other paths have no user. -/
def apiAuthenticationMiddleware : Except AppError (Option AuthUser) :=
  if bytes "/api/" <+: request.path then authenticationMiddleware config sha256 store request
  else .ok none

end Middleware

def requireUser : Option AuthUser → Except AppError AuthUser
  | none =>
      .error ⟨.unauthorized, "authentication_required", "ログインまたはアクセスキーが必要です"⟩
  | some user => .ok user

def requireHeaderUser (authenticated : Option AuthUser) : Except AppError AuthUser := do
  let user ← requireUser authenticated
  if user.method ≠ .header then
    .error ⟨.forbidden, "browser_auth_required", "ブラウザからログインしてください"⟩
  else .ok user

def requireAdmin (authenticated : Option AuthUser) : Except AppError AuthUser := do
  let user ← requireHeaderUser authenticated
  if !user.isAdmin then .error ⟨.forbidden, "admin_required", "管理者権限が必要です"⟩
  else .ok user

/-- The requests for which an access key counts. -/
inductive TokenRequest (request : Request) : Prop where
  | submissions (hpath : request.path = bytes "/api/v1/submissions")
      (hmethod : request.method = bytes "GET" ∨ request.method = bytes "POST")
  | submission (hmethod : request.method = bytes "GET") (id : List UInt8)
      (hpath : request.path = bytes "/api/v1/submissions/" ++ id) (hlength : id.length = 36)
      (hid : ∀ b ∈ id, hexOrDash b)

/-- A key of this form is looked up. -/
def KeyTried (request : Request) : Prop :=
  bytes "Bearer 1brc_" <+: request.authorization ∧ TokenRequest request

variable {config : AuthConfig} {sha256 : List UInt8 → List UInt8} {store : TokenStore}
  {request : Request} {authenticated : Option AuthUser} {user : AuthUser}

theorem trimPrefix_append (start text : List UInt8) : trimPrefix start (start ++ text) = text := by
  rw [trimPrefix, if_pos (List.prefix_append _ _), List.drop_left]

theorem uuidPattern_iff {text : List UInt8} :
    uuidPattern text = true ↔ text.length = 36 ∧ ∀ b ∈ text, hexOrDash b := by
  simp [uuidPattern]

theorem tokenMayAuthenticate_iff :
    tokenMayAuthenticate request.method request.path = true ↔ TokenRequest request := by
  unfold tokenMayAuthenticate
  constructor
  · intro h
    split_ifs at h with hpath hrest
    · exact .submissions hpath (by simpa using h)
    · rw [not_or, not_not, not_not] at hrest
      obtain ⟨hmethod, id, hid⟩ := hrest
      rw [← hid, trimPrefix_append, Bool.and_eq_true, uuidPattern_iff] at h
      exact .submission hmethod id hid.symm h.2.1 h.2.2
  · rintro (⟨hpath, hmethod⟩ | ⟨hmethod, id, hpath, hlength, hid⟩)
    · rw [if_pos hpath]
      simpa using hmethod
    · have hslash : id.contains 47 = false := by
        rw [List.contains_eq_mem, decide_eq_false_iff_not]
        intro hmem
        exact absurd (hid 47 hmem) (by decide)
      have hother : request.path ≠ bytes "/api/v1/submissions" := by
        rw [hpath]
        intro heq
        have hlen := congrArg List.length heq
        rw [List.length_append, hlength] at hlen
        exact absurd hlen (by decide)
      have hrest : ¬(request.method ≠ bytes "GET" ∨
          ¬bytes "/api/v1/submissions/" <+: request.path) := by
        rw [hmethod, hpath]
        simp
      rw [if_neg hother, if_neg hrest, hpath, trimPrefix_append]
      dsimp only
      rw [hslash, uuidPattern_iff.mpr ⟨hlength, hid⟩]
      rfl

theorem TokenStore.userForToken_some {hash : List UInt8}
    (h : store.userForToken hash = .ok (some user)) :
    user.method = .token ∧ user.isAdmin = false ∧ ∃ row ∈ store.rows, row.tokenHash = hash := by
  unfold TokenStore.userForToken at h
  split_ifs at h
  split at h
  · exact nomatch h
  · next row hrow =>
    split_ifs at h
    · cases h
    obtain rfl := Option.some.inj (Except.ok.inj h)
    have hhash := List.find?_some hrow
    rw [decide_eq_true_eq] at hhash
    exact ⟨rfl, rfl, row, List.mem_of_find?_eq_some hrow, hhash⟩

/-- A user comes from a key of a stored token, or from the header of a request without such a
key. -/
theorem establish_some (h : establish config sha256 store request = .ok (some user)) :
    (KeyTried request ∧ user.method = .token ∧ user.isAdmin = false ∧
      ∃ row ∈ store.rows,
        row.tokenHash = sha256 (trimPrefix (bytes "Bearer ") request.authorization)) ∨
    ¬KeyTried request ∧ config.trustProxyHeader = true ∧ user.method = .header ∧
      user.username = request.forwardedUser ∧ usernamePattern request.forwardedUser = true := by
  have htried : (bytes "Bearer 1brc_" <+: request.authorization ∧
      tokenMayAuthenticate request.method request.path = true) ↔ KeyTried request :=
    and_congr_right fun _ => tokenMayAuthenticate_iff
  unfold establish at h
  split_ifs at h with hkey hproxy
  · obtain ⟨found, hfound, h⟩ := Fallible.bind_eq_ok.mp h
    obtain ⟨rfl, -⟩ := Option.filter_eq_some_iff.mp (Except.ok.inj h)
    exact .inl ⟨htried.mp hkey, TokenStore.userForToken_some hfound⟩
  · dsimp only at h
    split_ifs at h with hname
    · obtain rfl := Option.some.inj (Except.ok.inj h)
      exact .inr ⟨fun hk => hkey (htried.mpr hk), hproxy, rfl, rfl, hname⟩
    · cases h
  · cases h

/-- A handler is called with the user that was established, after the check of the origin. -/
theorem authenticationMiddleware_ok
    (h : authenticationMiddleware config sha256 store request = .ok authenticated) :
    establish config sha256 store request = .ok authenticated ∧
      ¬(authenticated.any (·.method = .header) ∧ request.method ≠ bytes "GET" ∧
        request.method ≠ bytes "HEAD" ∧ request.method ≠ bytes "OPTIONS" ∧
        request.origin ≠ config.appOrigin) := by
  obtain ⟨found, hfound, h⟩ := Fallible.bind_eq_ok.mp h
  obtain ⟨-, -, h⟩ := Fallible.bind_eq_ok.mp h
  split_ifs at h with horigin
  obtain rfl := Except.ok.inj h
  exact ⟨hfound, horigin⟩

theorem requireHeaderUser_token (h : user.method = .token) :
    requireHeaderUser (some user) =
      .error ⟨.forbidden, "browser_auth_required", "ブラウザからログインしてください"⟩ := by
  rw [requireHeaderUser]
  simp [requireUser, h, bind, Except.bind]

theorem requireAdmin_token (h : user.method = .token) :
    requireAdmin (some user) =
      .error ⟨.forbidden, "browser_auth_required", "ブラウザからログインしてください"⟩ := by
  rw [requireAdmin, requireHeaderUser_token h]
  rfl

/-- What holds whenever a handler is called. -/
theorem apiAuthenticationMiddleware_sound
    (h : apiAuthenticationMiddleware config sha256 store request = .ok authenticated) :
    (∀ user, authenticated = some user → user.method = .token →
      TokenRequest request ∧ user.isAdmin = false ∧
        (∀ passed, requireHeaderUser authenticated ≠ .ok passed) ∧
        (∀ passed, requireAdmin authenticated ≠ .ok passed)) ∧
    (KeyTried request →
      (∀ row ∈ store.rows,
        row.tokenHash ≠ sha256 (trimPrefix (bytes "Bearer ") request.authorization)) →
      authenticated = none) ∧
    (∀ user, authenticated = some user → user.method = .header → request.method ≠ bytes "GET" →
      request.method ≠ bytes "HEAD" → request.method ≠ bytes "OPTIONS" →
      request.origin = config.appOrigin) := by
  unfold apiAuthenticationMiddleware at h
  split_ifs at h with hpath
  · obtain ⟨hestablished, horigin⟩ := authenticationMiddleware_ok h
    refine ⟨?_, ?_, ?_⟩
    · rintro user rfl htoken
      rcases establish_some hestablished with ⟨htried, -, hadmin, -⟩ | ⟨-, -, hheader, -⟩
      · refine ⟨htried.2, hadmin, ?_, ?_⟩
        · rw [requireHeaderUser_token htoken]
          exact nofun
        · rw [requireAdmin_token htoken]
          exact nofun
      · rw [htoken] at hheader
        exact nomatch hheader
    · intro htried hmissing
      by_contra hsome
      obtain ⟨user, rfl⟩ := Option.ne_none_iff_exists'.mp hsome
      rcases establish_some hestablished with ⟨-, -, -, row, hrow, hhash⟩ | ⟨hnot, -⟩
      · exact hmissing row hrow hhash
      · exact hnot htried
    · rintro user rfl hheader hget hhead hoptions
      by_contra hother
      exact horigin ⟨by simpa using hheader, hget, hhead, hoptions, hother⟩
  · obtain rfl := Except.ok.inj h
    exact ⟨nofun, fun _ _ => rfl, nofun⟩

/-- The SHA-256 digest of the key `1brc_a`. -/
def exampleDigest : List UInt8 :=
  [236, 211, 184, 70, 80, 27, 253, 122, 20, 180, 47, 217, 135, 93, 10, 35, 114, 65, 222, 72, 141,
    38, 159, 255, 62, 45, 16, 128, 231, 239, 242, 6]

def exampleRequest : Request where
  method := bytes "GET"
  path := bytes "/api/v1/submissions"
  authorization := bytes "Bearer 1brc_a"
  forwardedUser := bytes "bob"
  origin := []

def exampleStore : TokenStore := ⟨[⟨bytes "alice", exampleDigest⟩], false, false⟩

theorem apiAuthenticationMiddleware_sound_key :
    ∃ user, apiAuthenticationMiddleware ⟨true, [bytes "alice"], []⟩ (fun _ => exampleDigest)
        exampleStore exampleRequest = .ok (some user) ∧ user.username = bytes "alice" ∧
      user.isAdmin = false ∧ ∀ passed, requireAdmin (some user) ≠ .ok passed := by
  have hok : apiAuthenticationMiddleware ⟨true, [bytes "alice"], []⟩ (fun _ => exampleDigest)
      exampleStore exampleRequest =
        .ok (some ⟨bytes "alice", false, .token, exampleDigest⟩) := by
    decide +kernel
  have hsound := (apiAuthenticationMiddleware_sound hok).1 _ rfl rfl
  exact ⟨_, hok, rfl, hsound.2.1, hsound.2.2.2⟩

end OneBrc.Server.Authentication
