import OpenMigrate.Text
import Mathlib.Data.List.Basic
import Mathlib.Data.List.Infix
import Mathlib.Tactic.Common

namespace OpenMigrate.Tokens

section Source

structure OAuth2Token where
  accessToken : String
  expiresAt : ℤ
  tokenType : String
  refreshToken : Option String := none
  scope : Option String := none
  deriving DecidableEq

/-- `REFRESH_BUFFER_MS`, and `refreshBufferSeconds * 1000` -/
def REFRESH_BUFFER_MS : ℤ := 300000

def stillValid (now : ℤ) (token : OAuth2Token) : Bool := decide (REFRESH_BUFFER_MS < token.expiresAt - now)

def includes (body text : String) : Bool := body.toList.tails.any text.toList.isPrefixOf

/-- What comes back from a token endpoint; `shown` is the first 500 of the text. -/
inductive Reply where
  | unreachable (message : String)
  | refused (status : ℕ) (shown : String)
  | notJson (status : ℕ) (text : String)
  | answered (status : ℕ) (text : String) (access_token : String) (expires_in : Option ℤ)
      (token_type scope : Option String)

/-- What the four providers that post to a token endpoint differ in. -/
structure Issuer where
  refused : String
  endpoint : String
  hintFor : String → String
  scopeOf : Option String → Option String

def googleHint (body : String) : String :=
  if includes body "invalid_grant" then
    " — \"invalid_grant\" from Google means the refresh token is no longer usable: it was revoked " ++
      "(including by a password change), it expired after six months unused, or it was issued to a " ++
      "different client id than the one configured here. Re-consent to get a new one."
  else ""

def dropboxHint (body : String) : String :=
  if includes body "invalid_grant" then
    " — \"invalid_grant\" from Dropbox means the refresh token is no longer usable: it was " ++
      "revoked (the app was unlinked from the account), or it was issued by a DIFFERENT app " ++
      "key than the one configured here. Re-run the consent flow for this app to get a new one."
  else ""

def boxHint (body : String) : String :=
  if includes body "unauthorized_client" then
    " — \"unauthorized_client\" from Box usually means the app is NOT AUTHORIZED for this " ++
      "enterprise: a Box admin must approve it once in the Admin Console (Apps → Custom Apps " ++
      "Manager → Add app by Client ID), and re-approve it after its scopes change. It can also " ++
      "mean the app was created without \"App + Enterprise Access\" / user token generation, " ++
      "which the Client Credentials Grant needs. docs/box-setup.md walks through both."
  else if includes body "invalid_client" then
    " — \"invalid_client\" from Box means the client id or client secret is wrong for this app."
  else if includes body "invalid_grant" then
    " — check box_subject_id: it must be the NUMERIC Box user id of the account being " ++
      "migrated (Admin Console → Users & Groups shows it), not an email address."
  else ""

def dwdHintFor (clientEmail subject scope body : String) : String :=
  if includes body "unauthorized_client" then
    " — \"unauthorized_client\" here means the Workspace Admin console has not authorised " ++
      "this service account for the requested scope: in Admin → Security → Access and data " ++
      "control → API controls → Domain-wide delegation, the client id of " ++ clientEmail ++ " must " ++
      "list " ++ scope ++ ". Authorise exactly the scopes the migration needs, and revoke the entry " ++
      "again at cutover (ADR-0033)."
  else if includes body "invalid_grant" then
    " — \"invalid_grant\" here usually means the subject (" ++ subject ++ ") is not a user in the " ++
      "service account's Workspace domain, or the domain does not allow delegation to it. " ++
      "The subject must be the migrated account's primary address."
  else ""

def google (scope : String) : Issuer where
  refused := "Google refused the token request"
  endpoint := "Google's token endpoint"
  hintFor := googleHint
  scopeOf granted := some (granted.getD scope)

def googleJwtBearer (clientEmail subject scope : String) : Issuer where
  refused := "Google refused the delegated token request"
  endpoint := "Google's token endpoint"
  hintFor := dwdHintFor clientEmail subject scope
  scopeOf granted := some (granted.getD scope)

def box : Issuer where
  refused := "Box refused the token request"
  endpoint := "Box's token endpoint"
  hintFor := boxHint
  scopeOf _ := none

def dropbox : Issuer where
  refused := "Dropbox refused the token request"
  endpoint := "Dropbox's token endpoint"
  hintFor := dropboxHint
  scopeOf _ := none

/-- `requestToken`, from its answer on. -/
def Issuer.requestToken (issuer : Issuer) (reply : Reply) (now : ℤ) : Except String OAuth2Token :=
  match reply with
  | .unreachable message => .error message
  | .refused status shown => .error (s!"{issuer.refused} ({status}): {shown}" ++ issuer.hintFor shown)
  | .notJson status text => .error s!"{issuer.endpoint} answered {status} with something that is not JSON: {text}"
  | .answered status text access_token expires_in token_type scope =>
    if access_token = "" then .error s!"{issuer.endpoint} answered {status} with no access_token: {text}"
    else .ok
      { accessToken := access_token
        expiresAt := now + expires_in.getD 3600 * 1000
        tokenType := token_type.getD "Bearer"
        scope := issuer.scopeOf scope }

/-- What MSAL gives: `expiresOn` in milliseconds. -/
structure MsalResponse where
  accessToken : String
  refreshToken : Option String
  expiresOn : Option ℤ
  tokenType : Option String
  scope : Option String

def mapMsalTokenResponse (configScope : String) (response : MsalResponse) (now : ℤ) : OAuth2Token where
  accessToken := response.accessToken
  expiresAt := response.expiresOn.getD (now + 3600000)
  tokenType := (response.tokenType.filter (· ≠ "")).getD "Bearer"
  refreshToken := response.refreshToken
  scope := some ((response.scope.filter (· ≠ "")).getD configScope)

inductive CredentialFlow where
  | clientCredentials
  | delegated (refreshToken usernamePassword : Bool)

/-- What the MSAL calls of one acquisition answer: each is asked only where the ones before it gave no token. -/
structure MsalAnswers where
  client : Except String (Option MsalResponse)
  refresh : Except String (Option MsalResponse)
  password : Except String (Option MsalResponse)

def noDelegatedToken : String := "Failed to acquire token with refresh token or username/password"

/-- `acquireTokenWithClientCredentials` and `acquireTokenWithRefreshToken`: a refresh token that fails is followed by
the password where there is one. -/
def CredentialFlow.acquire (flow : CredentialFlow) (configScope : String) (answers : MsalAnswers) (now : ℤ) :
    Except String OAuth2Token :=
  match flow with
  | .clientCredentials =>
    match answers.client with
    | .ok (some response) => .ok (mapMsalTokenResponse configScope response now)
    | .ok none => .error "MSAL client credentials flow returned no token"
    | .error message => .error message
  | .delegated false false =>
    .error ("TokenProvider requires either client credentials (secret/certificate) or user credentials " ++
      "(refresh token or username/password)")
  | .delegated refreshToken usernamePassword =>
    let refreshed := if refreshToken then (answers.refresh.toOption).join else none
    match refreshed, usernamePassword, answers.password with
    | some response, _, _ => .ok (mapMsalTokenResponse configScope response now)
    | none, true, .ok (some response) => .ok (mapMsalTokenResponse configScope response now)
    | none, true, .error message => .error message
    | none, _, _ => .error noDelegatedToken

end Source

section Provider

inductive Kind where
  | getToken
  | refresh
  deriving DecidableEq

/-- The two ways to keep what a request brings: `mint` sets the cache when the token is there; `refreshInternal` also
clears it when there is none, and its caller does both once more. -/
inductive Flight where
  | mint
  | refreshInternal
  deriving DecidableEq

/-- How far a request has come: out, answered, past what sets the cache, past what ends the flight. -/
inductive Stage where
  | requested
  | answered (outcome : Except String OAuth2Token)
  | stored (outcome : Except String OAuth2Token)
  | settled (outcome : Except String OAuth2Token)

/-- One request and the number of the call that made it. -/
structure Mint where
  by_ : ℕ
  stage : Stage

inductive CallStage where
  | waiting (mint : ℕ)
  | returned (mint : ℕ) (outcome : Except String OAuth2Token)

/-- A call; `behind` is the number of requests that were over when it began. -/
structure Call where
  kind : Kind
  began : ℤ
  behind : ℕ
  stage : CallStage

/-- A provider with all its requests and calls; the cache knows which request brought its token. -/
structure State where
  cached : Option (ℕ × OAuth2Token)
  inFlight : Option ℕ
  mints : List Mint
  calls : List Call

inductive Event (Ω : Type) where
  | start (kind : Kind) (now : ℤ)
  | answer (mint : ℕ) (reply : Ω) (now : ℤ)
  | store (mint : ℕ)
  | settle (mint : ℕ)
  | deliver (call : ℕ)

/-- The five providers, each with what it is built from that its tokens and errors show. -/
inductive Provider where
  | google (scope : String)
  | googleJwtBearer (clientEmail subject scope : String)
  | box
  | dropbox
  | msal (flow : CredentialFlow) (scope : String)

/-- What a provider's request is answered. -/
def Provider.Answer : Provider → Type
  | .msal _ _ => MsalAnswers
  | .google _ | .googleJwtBearer _ _ _ | .box | .dropbox => Reply

def Provider.flight : Provider → Flight
  | .msal _ _ => .refreshInternal
  | .google _ | .googleJwtBearer _ _ _ | .box | .dropbox => .mint

def Provider.receive : (provider : Provider) → provider.Answer → ℤ → Except String OAuth2Token
  | .google scope => (Tokens.google scope).requestToken
  | .googleJwtBearer clientEmail subject scope => (Tokens.googleJwtBearer clientEmail subject scope).requestToken
  | .box => Tokens.box.requestToken
  | .dropbox => Tokens.dropbox.requestToken
  | .msal flow scope => flow.acquire scope

variable {Ω : Type} (flight : Flight) (receive : Ω → ℤ → Except String OAuth2Token)

def Flight.store (mint : ℕ) (outcome : Except String OAuth2Token) (cached : Option (ℕ × OAuth2Token)) :
    Option (ℕ × OAuth2Token) :=
  match flight, outcome with
  | _, .ok token => some (mint, token)
  | .mint, .error _ => cached
  | .refreshInternal, .error _ => none

/-- What the caller of `refreshInternal` does once more. -/
def Flight.settle (mint : ℕ) (outcome : Except String OAuth2Token) (cached : Option (ℕ × OAuth2Token)) :
    Option (ℕ × OAuth2Token) :=
  match flight with
  | .mint => cached
  | .refreshInternal => Flight.refreshInternal.store mint outcome cached

def State.empty : State := ⟨none, none, [], []⟩

def State.behind (s : State) : ℕ := s.inFlight.getD s.mints.length

/-- `getToken` and `refresh`, up to their first wait. -/
def State.start (s : State) (kind : Kind) (now : ℤ) : State :=
  let cached := if kind = .refresh then none else s.cached
  let call := fun stage => ({ kind := kind, began := now, behind := s.behind, stage := stage } : Call)
  match cached.filter fun c => stillValid now c.2 with
  | some c => { s with cached := cached, calls := s.calls ++ [call (.returned c.1 (.ok c.2))] }
  | none =>
    match s.inFlight with
    | some mint => { s with cached := cached, calls := s.calls ++ [call (.waiting mint)] }
    | none =>
      { cached := cached
        inFlight := some s.mints.length
        mints := s.mints ++ [⟨s.calls.length, .requested⟩]
        calls := s.calls ++ [call (.waiting s.mints.length)] }

def State.setMint (s : State) (mint by_ : ℕ) (stage : Stage) : State :=
  { s with mints := s.mints.set mint ⟨by_, stage⟩ }

def step (s : State) : Event Ω → State
  | .start kind now => s.start kind now
  | .answer mint reply now =>
    match s.mints[mint]? with
    | some ⟨by_, .requested⟩ => s.setMint mint by_ (.answered (receive reply now))
    | _ => s
  | .store mint =>
    match s.mints[mint]? with
    | some ⟨by_, .answered outcome⟩ =>
      { s.setMint mint by_ (.stored outcome) with cached := flight.store mint outcome s.cached }
    | _ => s
  | .settle mint =>
    match s.mints[mint]? with
    | some ⟨by_, .stored outcome⟩ =>
      { s.setMint mint by_ (.settled outcome) with
        cached := flight.settle mint outcome s.cached, inFlight := none }
    | _ => s
  | .deliver j =>
    match s.calls[j]? with
    | some c =>
      match c.stage with
      | .waiting mint =>
        match s.mints[mint]? with
        | some ⟨_, .settled outcome⟩ => { s with calls := s.calls.set j { c with stage := .returned mint outcome } }
        | _ => s
      | _ => s
    | none => s

def run (s : State) (events : List (Event Ω)) : State := events.foldl (step flight receive) s

end Provider

section Spec

variable {Ω : Type}

def Stage.over : Stage → Bool
  | .settled _ => true
  | .requested | .answered _ | .stored _ => false

/-- What a request brought, once the cache has been set. -/
def Stage.brought : Stage → Option (Except String OAuth2Token)
  | .requested | .answered _ => none
  | .stored outcome | .settled outcome => some outcome

/-- The request whose outcome a call has or awaits. -/
def Call.mint (c : Call) : ℕ :=
  match c.stage with
  | .waiting mint | .returned mint _ => mint

def Call.over (c : Call) : Bool :=
  match c.stage with
  | .waiting _ => false
  | .returned _ _ => true

/-- No new call; where a request is answered, with this. -/
def Event.Continues (reply : Ω) (now : ℤ) : Event Ω → Prop
  | .start _ _ => False
  | .answer _ reply' now' => reply' = reply ∧ now' = now
  | .store _ | .settle _ | .deliver _ => True

/-- A call has the outcome of the request that was out when it began, which it made itself where none was; a `getToken`
may have a token of the cache instead, that is good for longer than the buffer. -/
def Call.Served (s : State) (c : Call) : Prop :=
  match c.stage with
  | .waiting mint => mint = c.behind ∧ mint < s.mints.length
  | .returned mint outcome =>
    (∃ m, s.mints[mint]? = some m ∧ m.stage.brought = some outcome) ∧
      (mint = c.behind ∨ c.kind = .getToken ∧ mint ≤ c.behind ∧
        ∃ token, outcome = .ok token ∧ stillValid c.began token = true)

structure State.Served (s : State) : Prop where
  single : (s.mints.filter fun m => !m.stage.over).length ≤ 1
  made : ∀ (k : ℕ) (m : Mint), s.mints[k]? = some m → ∃ c, s.calls[m.by_]? = some c ∧ c.behind = k ∧ c.mint = k
  served : ∀ c ∈ s.calls, c.Served s
  renewed : s.calls.Pairwise fun c d => c.kind = .refresh → c.behind ≤ d.mint

end Spec

section Invariant

variable {Ω : Type} {flight : Flight} {receive : Ω → ℤ → Except String OAuth2Token} {s : State} {k : ℕ}

structure State.Sound (s : State) : Prop where
  flying : ∀ (k : ℕ) (m : Mint), s.mints[k]? = some m → (m.stage.over = false ↔ s.inFlight = some k)
  last : ∀ k, s.inFlight = some k → k + 1 = s.mints.length
  cached : ∀ k token, s.cached = some (k, token) → ∃ m, s.mints[k]? = some m ∧ m.stage.brought = some (.ok token)
  fresh : ∀ c ∈ s.calls, c.kind = .refresh → ∀ k token, s.cached = some (k, token) → c.behind ≤ k
  behind : ∀ c ∈ s.calls, c.behind ≤ s.behind
  made : ∀ (k : ℕ) (m : Mint), s.mints[k]? = some m → ∃ c, s.calls[m.by_]? = some c ∧ c.behind = k ∧ c.mint = k
  served : ∀ c ∈ s.calls, c.Served s
  renewed : s.calls.Pairwise fun c d => c.kind = .refresh → c.behind ≤ d.mint

theorem State.Sound.empty : State.empty.Sound where
  flying k m hm := by cases hm
  last k hk := by cases hk
  cached k token hk := by cases hk
  fresh c hc := by cases hc
  behind c hc := by cases hc
  made k m hm := by cases hm
  served c hc := by cases hc
  renewed := .nil

/-- A request that brings its outcome later than this state is no call's yet. -/
theorem Call.Served.mints {c : Call} {s' : State} (hlength : s.mints.length ≤ s'.mints.length)
    (hbrought : ∀ (k : ℕ) (m : Mint) outcome, s.mints[k]? = some m → m.stage.brought = some outcome →
      ∃ m', s'.mints[k]? = some m' ∧ m'.stage.brought = some outcome)
    (hc : c.Served s) : c.Served s' := by
  unfold Call.Served at hc ⊢
  split at hc
  · exact ⟨hc.1, hc.2.trans_le hlength⟩
  · obtain ⟨⟨m, hm, hout⟩, hfrom⟩ := hc
    exact ⟨hbrought _ m _ hm hout, hfrom⟩

theorem State.Sound.cached_le (h : s.Sound) {token : OAuth2Token} (hcached : s.cached = some (k, token)) :
    k ≤ s.behind := by
  obtain ⟨m, hm, -⟩ := h.cached k token hcached
  have hlt := (List.getElem?_eq_some_iff.mp hm).1
  unfold State.behind
  cases hflight : s.inFlight with
  | none => exact hlt.le
  | some p =>
    have hlast := h.last p hflight
    change k ≤ p
    omega

theorem State.Sound.clear (h : s.Sound) : ({ s with cached := none } : State).Sound :=
  ⟨h.flying, h.last, nofun, nofun, h.behind, h.made, fun c hc => (h.served c hc).mints le_rfl
    (fun _ m _ hm hout => ⟨m, hm, hout⟩), h.renewed⟩

/-- A new call that makes no request. -/
theorem State.Sound.join (h : s.Sound) (c : Call) (hbehind : c.behind = s.behind) (hserved : c.Served s)
    (hfresh : c.kind = .refresh → s.cached = none)
    (hrenewed : ∀ d ∈ s.calls, d.kind = .refresh → d.behind ≤ c.mint) :
    ({ s with calls := s.calls ++ [c] } : State).Sound where
  flying := h.flying
  last := h.last
  cached := h.cached
  fresh d hd hkind k token hcached := by
    obtain hd | rfl := (List.mem_append.mp hd).imp_right List.mem_singleton.mp
    · exact h.fresh d hd hkind k token hcached
    · rw [hfresh hkind] at hcached
      cases hcached
  behind d hd := by
    obtain hd | rfl := (List.mem_append.mp hd).imp_right List.mem_singleton.mp
    · exact h.behind d hd
    · exact hbehind.le
  made k m hm := by
    obtain ⟨d, hd, hmade⟩ := h.made k m hm
    exact ⟨d, by rw [List.getElem?_append_left (List.getElem?_eq_some_iff.mp hd).1, hd], hmade⟩
  served d hd := by
    obtain hd | rfl := (List.mem_append.mp hd).imp_right List.mem_singleton.mp
    · exact (h.served d hd).mints le_rfl fun _ m _ hm hout => ⟨m, hm, hout⟩
    · exact Call.Served.mints le_rfl (fun _ m _ hm hout => ⟨m, hm, hout⟩) hserved
  renewed := by
    refine List.pairwise_append.mpr ⟨h.renewed, List.pairwise_singleton _ _, fun d hd e he => ?_⟩
    obtain rfl := List.mem_singleton.mp he
    exact hrenewed d hd

/-- A new call that makes a request, where none is out. -/
theorem State.Sound.mint (h : s.Sound) (hidle : s.inFlight = none) (c : Call) (hbehind : c.behind = s.mints.length)
    (hstage : c.stage = .waiting s.mints.length) (hfresh : c.kind = .refresh → s.cached = none) :
    (⟨s.cached, some s.mints.length, s.mints ++ [⟨s.calls.length, .requested⟩], s.calls ++ [c]⟩ : State).Sound := by
  have hmint : c.mint = s.mints.length := by rw [Call.mint, hstage]
  have hnow : s.behind = s.mints.length := by rw [State.behind, hidle]; rfl
  have hnew : ∀ (k : ℕ) (m : Mint), (s.mints ++ [⟨s.calls.length, .requested⟩])[k]? = some m →
      s.mints[k]? = some m ∨ k = s.mints.length ∧ m = ⟨s.calls.length, .requested⟩ := by
    intro k m hm
    obtain hlt | rfl | hgt := lt_trichotomy k s.mints.length
    · rw [List.getElem?_append_left hlt] at hm
      exact .inl hm
    · rw [List.getElem?_concat_length] at hm
      exact .inr ⟨rfl, (Option.some.inj hm).symm⟩
    · rw [List.getElem?_eq_none (by rw [List.length_append, List.length_singleton]; omega)] at hm
      cases hm
  have hold : ∀ (k : ℕ) (m : Mint), s.mints[k]? = some m →
      (s.mints ++ [⟨s.calls.length, .requested⟩])[k]? = some m := fun k m hm => by
    rw [List.getElem?_append_left (List.getElem?_eq_some_iff.mp hm).1, hm]
  refine ⟨?_, ?_, ?_, ?_, ?_, ?_, ?_, ?_⟩
  · intro k m hm
    obtain hm | ⟨rfl, rfl⟩ := hnew k m hm
    · have hover : ¬ m.stage.over = false := by
        rw [h.flying k m hm, hidle]
        exact nofun
      have hne : s.mints.length ≠ k := (List.getElem?_eq_some_iff.mp hm).1.ne'
      simp [hover, hne]
    · simp [Stage.over]
  · intro k hk
    obtain rfl := Option.some.inj hk
    rw [List.length_append, List.length_singleton]
  · intro k token hcached
    obtain ⟨m, hm, hout⟩ := h.cached k token hcached
    exact ⟨m, hold k m hm, hout⟩
  · intro d hd hkind k token hcached
    obtain hd | rfl := (List.mem_append.mp hd).imp_right List.mem_singleton.mp
    · exact h.fresh d hd hkind k token hcached
    · rw [hfresh hkind] at hcached
      cases hcached
  · intro d hd
    obtain hd | rfl := (List.mem_append.mp hd).imp_right List.mem_singleton.mp
    · exact (h.behind d hd).trans hnow.le
    · exact hbehind.le
  · intro k m hm
    obtain hm | ⟨rfl, rfl⟩ := hnew k m hm
    · obtain ⟨d, hd, hmade⟩ := h.made k m hm
      exact ⟨d, by rw [List.getElem?_append_left (List.getElem?_eq_some_iff.mp hd).1, hd], hmade⟩
    · exact ⟨c, List.getElem?_concat_length, hbehind, hmint⟩
  · intro d hd
    have hlength : s.mints.length ≤ (s.mints ++ [(⟨s.calls.length, .requested⟩ : Mint)]).length := by
      rw [List.length_append]
      omega
    obtain hd | rfl := (List.mem_append.mp hd).imp_right List.mem_singleton.mp
    · exact (h.served d hd).mints hlength fun k m _ hm hout => ⟨m, hold k m hm, hout⟩
    · unfold Call.Served
      rw [hstage]
      exact ⟨hbehind.symm, by rw [List.length_append, List.length_singleton]; omega⟩
  · refine List.pairwise_append.mpr ⟨h.renewed, List.pairwise_singleton _ _, fun d hd e he hkind => ?_⟩
    obtain rfl := List.mem_singleton.mp he
    rw [hmint, ← hnow]
    exact h.behind d hd

/-- A new call: it has a token of the cache, or awaits what is out, or makes a request. -/
theorem State.Sound.start (h : s.Sound) (kind : Kind) (now : ℤ) : (s.start kind now).Sound := by
  have hclear : ({ s with cached := if kind = .refresh then none else s.cached } : State).Sound := by
    split
    · exact h.clear
    · exact h
  have hnone : kind = .refresh → (if kind = .refresh then none else s.cached) = none := fun hkind => if_pos hkind
  unfold State.start
  dsimp only
  split
  · rename_i c hc
    obtain ⟨hcached, hvalid⟩ := Option.filter_eq_some_iff.mp hc
    have hkind : kind = .getToken := by
      cases kind with
      | getToken => rfl
      | refresh =>
        rw [hnone rfl] at hcached
        cases hcached
    refine hclear.join _ rfl ?_ hnone ?_
    · exact ⟨hclear.cached c.1 c.2 hcached, .inr ⟨hkind, hclear.cached_le hcached, c.2, rfl, hvalid⟩⟩
    · exact fun d hd hrefresh => hclear.fresh d hd hrefresh c.1 c.2 hcached
  · split
    · rename_i mint hflight
      have hnow : s.behind = mint := by rw [State.behind, hflight]; rfl
      have hlast := h.last mint hflight
      refine hclear.join _ rfl ?_ hnone fun d hd _ => (h.behind d hd).trans hnow.le
      exact ⟨hnow.symm, by change mint < s.mints.length; omega⟩
    · rename_i hidle
      have hnow : s.behind = s.mints.length := by rw [State.behind, hidle]; rfl
      exact hclear.mint hidle _ hnow rfl hnone

/-- What a turn does to one request: it goes a stage further, and the cache may take what it brought. -/
theorem State.Sound.further (h : s.Sound) {m : Mint} {stage : Stage} {cached : Option (ℕ × OAuth2Token)}
    {inFlight : Option ℕ} (hk : s.mints[k]? = some m) (hout : m.stage.over = false)
    (hbrought : ∀ outcome, m.stage.brought = some outcome → stage.brought = some outcome)
    (hflight : inFlight = if stage.over then none else some k)
    (hcached : cached = s.cached ∨ cached = none ∨
      ∃ token, cached = some (k, token) ∧ stage.brought = some (.ok token)) :
    ({ s with cached := cached, inFlight := inFlight, mints := s.mints.set k ⟨m.by_, stage⟩ } : State).Sound := by
  have hnow : s.inFlight = some k := (h.flying k m hk).mp hout
  have hlast := h.last k hnow
  have hlt : k < s.mints.length := (List.getElem?_eq_some_iff.mp hk).1
  have hself : (s.mints.set k ⟨m.by_, stage⟩)[k]? = some ⟨m.by_, stage⟩ := List.getElem?_set_self hlt
  have hkept : ∀ (j : ℕ) (m' : Mint) outcome, s.mints[j]? = some m' → m'.stage.brought = some outcome →
      ∃ m'', (s.mints.set k ⟨m.by_, stage⟩)[j]? = some m'' ∧ m''.stage.brought = some outcome := by
    intro j m' outcome hj hsame
    by_cases hjk : k = j
    · subst hjk
      obtain rfl := Option.some.inj (hk.symm.trans hj)
      exact ⟨_, hself, hbrought outcome hsame⟩
    · exact ⟨m', by rw [List.getElem?_set_ne hjk, hj], hsame⟩
  have hlength : (s.mints.set k ⟨m.by_, stage⟩).length = s.mints.length := List.length_set
  refine ⟨?_, ?_, ?_, ?_, ?_, ?_, ?_, h.renewed⟩
  · intro j m' hj
    by_cases hjk : k = j
    · subst hjk
      obtain rfl := Option.some.inj (hself.symm.trans hj)
      dsimp only
      rw [hflight]
      cases stage.over <;> simp
    · rw [List.getElem?_set_ne hjk] at hj
      have hover : ¬ m'.stage.over = false := by
        rw [h.flying j m' hj, hnow]
        exact fun heq => hjk (Option.some.inj heq)
      dsimp only
      rw [hflight]
      cases stage.over <;> simp [hover, hjk]
  · intro j hj
    dsimp only at hj ⊢
    rw [hflight] at hj
    rw [hlength]
    split at hj
    · cases hj
    · obtain rfl := Option.some.inj hj
      exact hlast
  · intro j token hj
    obtain heq | hnone | ⟨t, hnew, ht⟩ := hcached
    · obtain ⟨m', hm', hsame⟩ := h.cached j token (heq ▸ hj)
      exact hkept j m' _ hm' hsame
    · rw [hnone] at hj
      cases hj
    · rw [hnew] at hj
      obtain ⟨rfl, rfl⟩ := Prod.mk.inj (Option.some.inj hj)
      exact ⟨_, hself, ht⟩
  · intro c hc hkind j token hj
    obtain heq | hnone | ⟨t, hnew, -⟩ := hcached
    · exact h.fresh c hc hkind j token (heq ▸ hj)
    · rw [hnone] at hj
      cases hj
    · rw [hnew] at hj
      obtain ⟨rfl, rfl⟩ := Prod.mk.inj (Option.some.inj hj)
      have hbehind := h.behind c hc
      rwa [State.behind, hnow] at hbehind
  · intro c hc
    refine (h.behind c hc).trans ?_
    rw [State.behind, State.behind, hnow, hflight]
    dsimp only
    rw [hlength]
    cases stage.over
    · exact le_rfl
    · exact hlt.le
  · intro j m' hj
    by_cases hjk : k = j
    · subst hjk
      obtain rfl := Option.some.inj (hself.symm.trans hj)
      exact h.made k m hk
    · rw [List.getElem?_set_ne hjk] at hj
      exact h.made j m' hj
  · intro c hc
    exact (h.served c hc).mints hlength.ge hkept

theorem Flight.store_cases (flight : Flight) (mint : ℕ) (outcome : Except String OAuth2Token)
    (cached : Option (ℕ × OAuth2Token)) : flight.store mint outcome cached = cached ∨
      flight.store mint outcome cached = none ∨
      ∃ token, flight.store mint outcome cached = some (mint, token) ∧ outcome = .ok token := by
  cases outcome with
  | ok token => exact .inr (.inr ⟨token, by cases flight <;> rfl, rfl⟩)
  | error message =>
    cases flight with
    | mint => exact .inl rfl
    | refreshInternal => exact .inr (.inl rfl)

theorem State.Sound.deliver (h : s.Sound) {c : Call} {j : ℕ} {m : Mint} {outcome : Except String OAuth2Token}
    (hj : s.calls[j]? = some c) (hc : c.stage = .waiting k) (hk : s.mints[k]? = some m)
    (hout : m.stage = .settled outcome) :
    ({ s with calls := s.calls.set j { c with stage := .returned k outcome } } : State).Sound := by
  have hmint : c.mint = k := by rw [Call.mint, hc]
  have hserved := h.served c (List.mem_of_getElem? hj)
  rw [Call.Served, hc] at hserved
  have hself : (s.calls.set j { c with stage := .returned k outcome })[j]? =
      some { c with stage := .returned k outcome } := List.getElem?_set_self (List.getElem?_eq_some_iff.mp hj).1
  have hmem : ∀ d ∈ s.calls.set j { c with stage := .returned k outcome },
      d ∈ s.calls ∨ d = { c with stage := .returned k outcome } := fun d hd => List.mem_or_eq_of_mem_set hd
  refine ⟨h.flying, h.last, h.cached, ?_, ?_, ?_, ?_, ?_⟩
  · intro d hd hkind
    obtain hd | rfl := hmem d hd
    · exact h.fresh d hd hkind
    · exact h.fresh c (List.mem_of_getElem? hj) hkind
  · intro d hd
    obtain hd | rfl := hmem d hd
    · exact h.behind d hd
    · exact h.behind c (List.mem_of_getElem? hj)
  · intro i m' hm'
    obtain ⟨d, hd, hmade⟩ := h.made i m' hm'
    by_cases hji : j = m'.by_
    · rw [← hji] at hd ⊢
      obtain rfl := Option.some.inj (hj.symm.trans hd)
      exact ⟨_, hself, hmade.1, hmint.symm.trans hmade.2⟩
    · exact ⟨d, by rw [List.getElem?_set_ne hji, hd], hmade⟩
  · intro d hd
    obtain hd | rfl := hmem d hd
    · exact (h.served d hd).mints le_rfl fun _ m' _ hm' hsame => ⟨m', hm', hsame⟩
    · exact ⟨⟨m, hk, by rw [hout]; rfl⟩, .inl hserved.1⟩
  · -- the delivery leaves what the two calls are compared by
    have hsame : (s.calls.set j { c with stage := .returned k outcome }).map (fun d => (d.kind, d.behind, d.mint)) =
        s.calls.map fun d => (d.kind, d.behind, d.mint) := by
      obtain ⟨hlt, hget⟩ := List.getElem?_eq_some_iff.mp hj
      have hlt' : j < (s.calls.map fun d => (d.kind, d.behind, d.mint)).length := by rwa [List.length_map]
      have hkey : ((c.kind, c.behind, k) : Kind × ℕ × ℕ) = (s.calls.map fun d => (d.kind, d.behind, d.mint))[j] := by
        rw [List.getElem_map, hget, hmint]
      rw [List.map_set]
      change List.set _ j (c.kind, c.behind, k) = _
      rw [hkey, List.set_getElem_self]
    have hpairs : (s.calls.map fun d => (d.kind, d.behind, d.mint)).Pairwise
        fun x y => x.1 = .refresh → x.2.1 ≤ y.2.2 := List.pairwise_map.mpr h.renewed
    rw [← hsame] at hpairs
    exact List.pairwise_map.mp hpairs

theorem State.Sound.step (h : s.Sound) (event : Event Ω) : (step flight receive s event).Sound := by
  cases event with
  | start kind now => exact h.start kind now
  | answer mint reply now =>
    unfold Tokens.step
    dsimp only
    split
    · rename_i by_ hmint
      exact h.further hmint rfl nofun ((h.flying mint _ hmint).mp rfl) (.inl rfl)
    · exact h
  | store mint =>
    unfold Tokens.step
    dsimp only
    split
    · rename_i by_ outcome hmint
      have hcached := flight.store_cases mint outcome s.cached
      refine h.further hmint rfl nofun ((h.flying mint _ hmint).mp rfl) (hcached.imp_right (.imp_right ?_))
      rintro ⟨token, hnew, rfl⟩
      exact ⟨token, hnew, rfl⟩
    · exact h
  | settle mint =>
    unfold Tokens.step
    dsimp only
    split
    · rename_i by_ outcome hmint
      refine h.further hmint rfl (fun _ hsame => hsame) rfl ?_
      cases flight with
      | mint => exact .inl rfl
      | refreshInternal =>
        refine (Flight.refreshInternal.store_cases mint outcome s.cached).imp_right (.imp_right ?_)
        rintro ⟨token, hnew, rfl⟩
        exact ⟨token, hnew, rfl⟩
    · exact h
  | deliver j =>
    unfold Tokens.step
    dsimp only
    split
    · rename_i c hj
      split
      · rename_i mint hc
        split
        · rename_i by_ outcome hmint
          exact h.deliver hj hc hmint rfl
        · exact h
      · exact h
    · exact h

theorem State.Sound.run (h : s.Sound) (events : List (Event Ω)) : (run flight receive s events).Sound := by
  induction events generalizing s with
  | nil => exact h
  | cons event events ih => exact ih (h.step event)

theorem State.Sound.single (h : s.Sound) : (s.mints.filter fun m => !m.stage.over).length ≤ 1 := by
  have hlast : ∀ k (hk : k < s.mints.length), s.mints[k].stage.over = false → k + 1 = s.mints.length := by
    intro k hk hover
    exact h.last k ((h.flying k _ (List.getElem?_eq_getElem hk)).mp hover)
  obtain hnil | ⟨before, m, hsplit⟩ := s.mints.eq_nil_or_concat
  · rw [hnil]
    exact Nat.zero_le 1
  · have hnone : before.filter (fun m => !m.stage.over) = [] := by
      refine List.filter_eq_nil_iff.mpr fun m' hm' hopen => ?_
      obtain ⟨k, hk, rfl⟩ := List.getElem_of_mem hm'
      have hlt : k < s.mints.length := by
        rw [hsplit, List.concat_eq_append, List.length_append]
        omega
      have hover : s.mints[k].stage.over = false := by
        simp only [hsplit, List.concat_eq_append, List.getElem_append_left hk]
        simpa using hopen
      have hend := hlast k hlt hover
      rw [hsplit, List.concat_eq_append, List.length_append, List.length_singleton] at hend
      omega
    rw [hsplit, List.concat_eq_append, List.filter_append, hnone, List.nil_append]
    exact List.length_filter_le _ _

end Invariant

section Ends

variable {Ω : Type} {flight : Flight} {receive : Ω → ℤ → Except String OAuth2Token} {s : State} {k : ℕ}

theorem set_stage {by_ : ℕ} {stage stage' : Stage} (hk : s.mints[k]? = some ⟨by_, stage⟩) :
    (s.mints.set k ⟨by_, stage'⟩)[k]? = some ⟨by_, stage'⟩ :=
  List.getElem?_set_self (List.getElem?_eq_some_iff.mp hk).1

variable (flight receive) in
theorem step_answer {by_ : ℕ} (hk : s.mints[k]? = some ⟨by_, .requested⟩) (reply : Ω) (now : ℤ) :
    (step flight receive s (.answer k reply now)).mints[k]? = some ⟨by_, .answered (receive reply now)⟩ := by
  unfold step
  dsimp only
  rw [hk]
  exact set_stage hk

variable (flight receive) in
theorem step_store {by_ : ℕ} {outcome : Except String OAuth2Token} (hk : s.mints[k]? = some ⟨by_, .answered outcome⟩) :
    (step flight receive s (.store k)).mints[k]? = some ⟨by_, .stored outcome⟩ := by
  unfold step
  dsimp only
  rw [hk]
  exact set_stage hk

variable (flight receive) in
theorem step_settle {by_ : ℕ} {outcome : Except String OAuth2Token} (hk : s.mints[k]? = some ⟨by_, .stored outcome⟩) :
    (step flight receive s (.settle k)).inFlight = none := by
  unfold step
  dsimp only
  rw [hk]

variable (flight receive) in
/-- The request that is out can be brought to its end, if it is answered at all. -/
theorem State.Sound.settles (h : s.Sound) (reply : Ω) (now : ℤ) : ∃ events : List (Event Ω),
    (∀ event ∈ events, event.Continues reply now) ∧ (Tokens.run flight receive s events).inFlight = none := by
  cases hflight : s.inFlight with
  | none => exact ⟨[], nofun, hflight⟩
  | some k =>
    have hlast := h.last k hflight
    obtain ⟨⟨by_, stage⟩, hm⟩ : ∃ m, s.mints[k]? = some m := ⟨_, List.getElem?_eq_getElem (by omega)⟩
    have hopen := (h.flying k _ hm).mpr hflight
    cases stage with
    | requested =>
      exact ⟨[.answer k reply now, .store k, .settle k], by simp [Event.Continues],
        step_settle flight receive (step_store flight receive (step_answer flight receive hm reply now))⟩
    | answered outcome =>
      exact ⟨[.store k, .settle k], by simp [Event.Continues], step_settle flight receive
        (step_store flight receive hm)⟩
    | stored outcome => exact ⟨[.settle k], by simp [Event.Continues], step_settle flight receive hm⟩
    | settled outcome => cases hopen

variable (flight receive) in
/-- Where no request is out, a delivery ends its call and leaves the others. -/
theorem State.Sound.delivers (h : s.Sound) (hidle : s.inFlight = none) (j : ℕ) : ∃ calls,
    Tokens.step flight receive s (.deliver j) = { s with calls := calls } ∧ calls.length = s.calls.length ∧
      ∀ (i : ℕ) (c : Call), calls[i]? = some c → i = j ∨ (∃ d, s.calls[i]? = some d ∧ d.over = true) → c.over = true :=
        by
  have hsame : ∀ (i : ℕ) (c : Call), s.calls[i]? = some c → (∃ d, s.calls[i]? = some d ∧ d.over = true) → c.over =
    true := by
    rintro i c hc ⟨d, hd, hover⟩
    obtain rfl := Option.some.inj (hc.symm.trans hd)
    exact hover
  unfold Tokens.step
  dsimp only
  cases hj : s.calls[j]? with
  | none =>
    refine ⟨s.calls, rfl, rfl, fun i c hc hcase => hcase.elim (fun heq => ?_) (hsame i c hc)⟩
    rw [heq, hj] at hc
    cases hc
  | some c =>
    cases hstage : c.stage with
    | returned mint outcome =>
      have hover : c.over = true := by rw [Call.over, hstage]
      refine ⟨s.calls, by simp only [hstage], rfl, fun i d hd hcase => hcase.elim (fun heq => ?_) (hsame i d hd)⟩
      rw [heq, hj] at hd
      exact Option.some.inj hd ▸ hover
    | waiting mint =>
      have hserved := h.served c (List.mem_of_getElem? hj)
      rw [Call.Served, hstage] at hserved
      obtain ⟨⟨by_, stage⟩, hm⟩ : ∃ m, s.mints[mint]? = some m := ⟨_, List.getElem?_eq_getElem hserved.2⟩
      have hover : stage.over = true := by
        have hopen : ¬ stage.over = false := by
          rw [h.flying mint _ hm, hidle]
          exact nofun
        simpa using hopen
      cases stage with
      | settled outcome =>
        refine ⟨s.calls.set j { c with stage := .returned mint outcome }, by simp only [hstage, hm], List.length_set,
          ?_⟩
        intro i d hd hcase
        by_cases hij : j = i
        · subst hij
          rw [List.getElem?_set_self (List.getElem?_eq_some_iff.mp hj).1] at hd
          obtain rfl := Option.some.inj hd
          rfl
        · rw [List.getElem?_set_ne hij] at hd
          exact hcase.elim (fun heq => absurd heq.symm hij) (hsame i d hd)
      | requested => cases hover
      | answered outcome => cases hover
      | stored outcome => cases hover

variable (flight receive) in
theorem State.Sound.delivered (h : s.Sound) (hidle : s.inFlight = none) (js : List ℕ) :
    (Tokens.run flight receive s (js.map .deliver)).calls.length = s.calls.length ∧
      ∀ (i : ℕ) (c : Call), (Tokens.run flight receive s (js.map .deliver)).calls[i]? = some c →
        i ∈ js ∨ (∃ d, s.calls[i]? = some d ∧ d.over = true) → c.over = true := by
  induction js generalizing s with
  | nil =>
    refine ⟨rfl, fun i c hc hcase => ?_⟩
    obtain hi | ⟨d, hd, hover⟩ := hcase
    · cases hi
    · obtain rfl := Option.some.inj (hd.symm.trans hc)
      exact hover
  | cons j js ih =>
    obtain ⟨calls, hstep, hlength, hover⟩ := h.delivers flight receive hidle j
    have hnext : ({ s with calls := calls } : State).Sound := hstep ▸ h.step (.deliver j)
    obtain ⟨hsame, hrest⟩ := ih hnext hidle
    rw [List.map_cons, Tokens.run, List.foldl_cons, hstep]
    refine ⟨hsame.trans hlength, fun i c hc hcase => hrest i c hc ?_⟩
    have hlt : i < calls.length := hsame ▸ (List.getElem?_eq_some_iff.mp hc).1
    have hd := List.getElem?_eq_getElem hlt
    obtain hi | hdone := hcase
    · obtain rfl | hi := List.mem_cons.mp hi
      · exact .inr ⟨_, hd, hover _ _ hd (.inl rfl)⟩
      · exact .inl hi
    · exact .inr ⟨_, hd, hover i _ hd (.inr hdone)⟩

variable (flight receive) in
/-- Every call can still come to its end, whatever the request that is out is answered. -/
theorem State.Sound.ends (h : s.Sound) (reply : Ω) (now : ℤ) : ∃ events : List (Event Ω),
    (∀ event ∈ events, event.Continues reply now) ∧ ∀ c ∈ (Tokens.run flight receive s events).calls, c.over = true :=
      by
  obtain ⟨events, hstarts, hidle⟩ := h.settles flight receive reply now
  have hsound : (Tokens.run flight receive s events).Sound := h.run events
  refine ⟨events ++ (List.range (Tokens.run flight receive s events).calls.length).map .deliver, ?_, ?_⟩
  · intro event hevent
    obtain hevent | hevent := List.mem_append.mp hevent
    · exact hstarts event hevent
    · obtain ⟨j, -, rfl⟩ := List.mem_map.mp hevent
      exact trivial
  · intro c hc
    obtain ⟨hlength, hover⟩ := hsound.delivered flight receive hidle
      (List.range (Tokens.run flight receive s events).calls.length)
    have hrun : Tokens.run flight receive s
        (events ++ (List.range (Tokens.run flight receive s events).calls.length).map .deliver) =
          Tokens.run flight receive (Tokens.run flight receive s events)
            ((List.range (Tokens.run flight receive s events).calls.length).map .deliver) := List.foldl_append
    rw [hrun] at hc
    obtain ⟨i, hi⟩ := List.mem_iff_getElem?.mp hc
    have hlt := (List.getElem?_eq_some_iff.mp hi).1
    rw [hlength] at hlt
    exact hover i c hi (.inl (List.mem_range.mpr hlt))

/-- However the calls of `getToken` and `refresh`, the answers and the turns of the event loop interleave: one request
is out at a time, each made by a call that awaits it; a call has what the request brought that was out when it began,
or a token of the cache that stays good; what was there when a `refresh` began is given to no later call; and every
call can come to its end. -/
theorem tokens_served (provider : Provider) (events : List (Event provider.Answer)) :
    (run provider.flight provider.receive .empty events).Served ∧
      ∀ (reply : provider.Answer) (now : ℤ), ∃ more : List (Event provider.Answer),
        (∀ event ∈ more, event.Continues reply now) ∧
          ∀ c ∈ (run provider.flight provider.receive .empty (events ++ more)).calls, c.over = true := by
  have hsound : (run provider.flight provider.receive .empty events).Sound := State.Sound.empty.run events
  refine ⟨⟨hsound.single, hsound.made, hsound.served, hsound.renewed⟩, fun reply now => ?_⟩
  obtain ⟨more, hstarts, hover⟩ := hsound.ends provider.flight provider.receive reply now
  refine ⟨more, hstarts, ?_⟩
  rwa [run, List.foldl_append]

end Ends

end OpenMigrate.Tokens
