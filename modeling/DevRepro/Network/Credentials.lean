import DevRepro.Lib.Masks
import DevRepro.Project.ContractChanges
import DevRepro.Python.Words

/-!
# Credentials in URLs

`detect_registries` of `network/registries.py` and `collect_proxy_settings` of
`network/diagnostics.py`, each with its own way to strip credentials.  Both replace a run of
characters behind slashes and in front of an at-sign; `credentials_hidden_iff` says for which
values that is the userinfo, and all that is replaced.
-/

namespace DevRepro.Network

open DevRepro.Python
open DevRepro.Lib (MaskRule)
open DevRepro.Project (CommandResult CommandRunner)

def slash : CodePoint := codePoint '/'
def atSign : CodePoint := codePoint '@'

/-! ## The strippers -/

/-- `[^/@\s]` -/
def isRunChar (c : CodePoint) : Bool := c != slash && c != atSign && !isSpace c

/-- `_CREDENTIAL_IN_URL.sub("://<redacted>@", ...)`: what stands around the run stays. -/
def registryRule : MaskRule CodePoint where
  opener := lit "://"
  mask := lit "<redacted>"
  plain := isRunChar
  last := slash
  stop := atSign
  opener_last := by decide
  last_plain := by decide
  stop_plain := by decide
  stop_opener := by decide
  mask_plain := List.all_eq_true.mp (by decide)

/-- `_CRED_IN_URL.sub("***", ...)` -/
def proxyRule : MaskRule CodePoint where
  opener := lit "//"
  mask := lit "***"
  plain := isRunChar
  last := slash
  stop := atSign
  opener_last := by decide
  last_plain := by decide
  stop_plain := by decide
  stop_opener := by decide
  mask_plain := List.all_eq_true.mp (by decide)

/-- `strip_credentials` of `registries.py`. -/
def stripRegistryCredentials (url : Str) : Str := registryRule.maskAll url

/-- `_strip_credentials` of `diagnostics.py`. -/
def stripProxyCredentials (url : Str) : Str := proxyRule.maskAll url

/-! ## Registries -/

/-- A text at the start. -/
def expect (text s : Str) : Option Str := if startsWith s text then some (s.drop text.length) else none

/-- `\s*` -/
def skipSpaces (s : Str) : Str := s.dropWhile isSpace

/-- A class of characters, at least one, with what is behind them. -/
def takeSome (p : CodePoint → Bool) (s : Str) : Option (Str × Str) :=
  if s.takeWhile p = [] then none else some (s.takeWhile p, s.dropWhile p)

/-- `(\S+)` -/
def takeWord (s : Str) : Option (Str × Str) := takeSome (fun c => !isSpace c) s

/-- `"([^"]+)"` -/
def takeQuoted (s : Str) : Option (Str × Str) := do
  let s ← expect "\"" s
  let (group, s) ← takeSome (fun c => c != codePoint '"') s
  let s ← expect "\"" s
  return (group, s)

/-- `@[\w.-]+:` -/
def npmScope (isAlnum : CodePoint → Bool) (s : Str) : Option Str := do
  let s ← expect "@" s
  let (_, s) ← takeSome (fun c => isAlnum c || (lit "_.-").contains c) s
  expect ":" s

/-- `\s*(?:@[\w.-]+:)?registry\s*=\s*(\S+)` -/
def matchNpm (isAlnum : CodePoint → Bool) (s : Str) : Option (Str × Str) := do
  let s := skipSpaces s
  let s ← expect "registry" ((npmScope isAlnum s).getD s)
  let s ← expect "=" (skipSpaces s)
  takeWord (skipSpaces s)

/-- `\s*(?:index-url|extra-index-url)\s*=\s*(\S+)` -/
def matchPip (s : Str) : Option (Str × Str) := do
  let s := skipSpaces s
  let s ← (expect "index-url" s).or (expect "extra-index-url" s)
  let s ← expect "=" (skipSpaces s)
  takeWord (skipSpaces s)

/-- `\s*index-url\s*=\s*"([^"]+)"` and the like. -/
def matchTomlKey (key s : Str) : Option (Str × Str) := do
  let s ← expect key (skipSpaces s)
  let s ← expect "=" (skipSpaces s)
  takeQuoted (skipSpaces s)

/-- `<url>\s*([^<\s]+)\s*</url>` -/
def matchMaven (s : Str) : Option (Str × Str) := do
  let s ← expect "<url>" s
  let (group, s) ← takeSome (fun c => c != codePoint '<' && !isSpace c) (skipSpaces s)
  let s ← expect "</url>" (skipSpaces s)
  return (group, s)

/-- `BUNDLE_MIRROR__[^:]+:\s*(\S+)` -/
def matchBundler (s : Str) : Option (Str × Str) := do
  let s ← expect "BUNDLE_MIRROR__" s
  let (_, s) ← takeSome (fun c => c != codePoint ':') s
  let s ← expect ":" s
  takeWord (skipSpaces s)

/-- `"url"\s*:\s*"([^"]+)"` -/
def matchComposer (s : Str) : Option (Str × Str) := do
  let s ← expect "\"url\"" s
  let s ← expect ":" (skipSpaces s)
  takeQuoted (skipSpaces s)

/-- One of `_REGISTRY_PATTERNS`. -/
structure RegistryPattern where
  ecosystem : Str
  filename : Str
  /-- `(?m)^` -/
  atLineStart : Bool
  /-- The group of the pattern, and the text behind the match. -/
  matchAt : Str → Option (Str × Str)

/-- `_REGISTRY_PATTERNS` -/
def registryPatterns (isAlnum : CodePoint → Bool) : List RegistryPattern :=
  [⟨"npm", ".npmrc", true, matchNpm isAlnum⟩,
    ⟨"pip", "pip.conf", true, matchPip⟩,
    ⟨"pip", "pip.ini", true, matchPip⟩,
    ⟨"uv", "uv.toml", true, matchTomlKey "index-url"⟩,
    ⟨"cargo", ".cargo/config.toml", true, matchTomlKey "replace-with"⟩,
    ⟨"maven", ".m2/settings.xml", false, matchMaven⟩,
    ⟨"bundler", ".bundle/config", false, matchBundler⟩,
    ⟨"composer", ".composer/config.json", false, matchComposer⟩]

/-- `re.findall`, in at most so many steps; `prev` is the character in front. -/
def findallFrom (pattern : RegistryPattern) : Nat → Option CodePoint → Str → List Str
  | 0, _, _ => []
  | _ + 1, _, [] => []
  | steps + 1, prev, c :: rest =>
    let found :=
      if pattern.atLineStart && prev ≠ none && prev ≠ some (codePoint '\n') then none
      else pattern.matchAt (c :: rest)
    match found with
    | some (group, behind) =>
      group :: findallFrom pattern steps ((c :: rest)[rest.length - behind.length]?) behind
    | none => findallFrom pattern steps (some c) rest

def findall (pattern : RegistryPattern) (text : Str) : List Str :=
  findallFrom pattern text.length none text

structure RegistryConfig where
  ecosystem : Str
  sourceFile : Str
  url : Str
  scope : Str

/-- A match of a pattern in a file, stripped. -/
structure RegistryMatch where
  ecosystem : Str
  sourceFile : Str
  value : Str
  scope : Str

/-- `read_text_safe(base / filename)`, for the scope of the base. -/
abbrev ConfigFiles := Str → Str → Option Str

def scopes : List Str := ["project", "user"]

/-- The matches that the loops of `detect_registries` go through. -/
def registryMatches (isAlnum : CodePoint → Bool) (files : ConfigFiles) : List RegistryMatch :=
  scopes.flatMap fun scope => (registryPatterns isAlnum).flatMap fun pattern =>
    match files scope pattern.filename with
    | none => []
    | some text => (findall pattern text).map fun group =>
        ⟨pattern.ecosystem, pattern.filename, strip group, scope⟩

def RegistryMatch.config (m : RegistryMatch) : RegistryConfig :=
  ⟨m.ecosystem, m.sourceFile, stripRegistryCredentials m.value, m.scope⟩

/-- `detect_registries`. -/
def detectRegistries (isAlnum : CodePoint → Bool) (files : ConfigFiles) : List RegistryConfig :=
  (registryMatches isAlnum files).map RegistryMatch.config

/-! ## Proxies -/

/-- `_PROXY_ENV_KEYS` -/
def proxyEnvKeys : List Str :=
  ["HTTP_PROXY", "http_proxy", "HTTPS_PROXY", "https_proxy", "ALL_PROXY", "all_proxy", "NO_PROXY",
    "no_proxy"]

structure ProxyReport where
  envProxies : List (Str × Str)
  gitProxy : Option Str
  npmProxy : Bool
  pipProxy : Bool

/-- The variables that are set and not empty. -/
def proxyVars (env : Str → Option Str) : List (Str × Str) :=
  proxyEnvKeys.filterMap fun key => ((env key).filter fun val => val ≠ []).map fun val => (key, val)

/-- What a command prints, if it succeeds and prints something. -/
def printed (result : CommandResult) : Option Str :=
  if result.ok ∧ strip result.stdout ≠ [] then some (strip result.stdout) else none

def gitProxyValue (run : CommandRunner) : Option Str :=
  printed (run ["git", "config", "--get", "http.proxy"] 5)

/-- `_has_config`. -/
def hasConfig (run : CommandRunner) (tool needle : Str) : Bool :=
  (printed (run [tool, "config", "--get", needle] 8)).isSome

/-- `collect_proxy_settings`. -/
def collectProxySettings (env : Str → Option Str) (run : CommandRunner) : ProxyReport :=
  { envProxies := (proxyVars env).map fun item => (item.1, stripProxyCredentials item.2)
    gitProxy := (gitProxyValue run).map stripProxyCredentials
    npmProxy := hasConfig run "npm" "proxy" || hasConfig run "npm" "https-proxy"
    pipProxy := hasConfig run "pip" "proxy" }

/-! ## Userinfo -/

/-- A slash, a question mark or a hash ends the authority. -/
def endsAuthority (c : CodePoint) : Bool := (lit "/?#").contains c

def authority (s : Str) : Str := s.takeWhile fun c => !endsAuthority c

/-- What stands in front of the authority: the text up to the first `://`, or nothing for a proxy
without a scheme. -/
inductive Front (isProxy : Bool) (value : Str) : Str → Prop where
  | scheme {s : Str} (hin : s ++ lit "://" <+: value) (hfirst : ¬lit "://" <:+: s ++ lit ":/") :
      Front isProxy value (s ++ lit "://")
  | bare (hproxy : isProxy = true) (hnone : ¬lit "://" <:+: value) : Front isProxy value []

/-- The parts of a value with a userinfo, which goes up to the last at-sign of the authority. -/
structure HasUserinfo (isProxy : Bool) (value front userinfo behind : Str) : Prop where
  starts : Front isProxy value front
  parts : value = front ++ (userinfo ++ atSign :: behind)
  inside : ∀ c ∈ userinfo, endsAuthority c = false
  last : atSign ∉ authority behind

/-- The mask stands in place of the userinfo, and a value without one is as it was. -/
structure Hidden (rule : MaskRule CodePoint) (isProxy : Bool) (value reported : Str) : Prop where
  masked : ∀ front userinfo behind, HasUserinfo isProxy value front userinfo behind → userinfo ≠ [] →
    reported = rule.maskAll front ++ (rule.mask ++ atSign :: rule.maskAll behind)
  unchanged : (∀ front userinfo behind, ¬HasUserinfo isProxy value front userinfo behind) →
    reported = value

/-- The userinfo has no at-sign and no white space, and a scheme in front; a value without one has
no run but the mask. -/
structure Strippable (rule : MaskRule CodePoint) (isProxy : Bool) (value : Str) : Prop where
  userinfo : ∀ front userinfo behind, HasUserinfo isProxy value front userinfo behind → userinfo ≠ [] →
    if front = [] then userinfo = rule.mask else atSign ∉ userinfo ∧ ∀ c ∈ userinfo, isSpace c = false
  others : (∀ front userinfo behind, ¬HasUserinfo isProxy value front userinfo behind) →
    ∀ front x behind, value = front ++ (x ++ atSign :: behind) → rule.opener <:+ front → x ≠ [] →
      (∀ c ∈ x, isRunChar c = true) → x = rule.mask

/-- The rule of a stripper. -/
structure Strips (rule : MaskRule CodePoint) : Prop where
  opener : rule.opener <:+ lit "://"
  plain : rule.plain = isRunChar
  last : rule.last = slash
  stop : rule.stop = atSign

theorem registryRule_strips : Strips registryRule := ⟨List.suffix_rfl, rfl, rfl, rfl⟩

theorem proxyRule_strips : Strips proxyRule := ⟨⟨lit ":", rfl⟩, rfl, rfl, rfl⟩

theorem isRunChar_iff {c : CodePoint} (hend : endsAuthority c = false) :
    isRunChar c = true ↔ c ≠ atSign ∧ isSpace c = false := by
  have hslash : c ≠ slash := by
    rintro rfl
    exact absurd hend (by decide)
  rw [isRunChar, Bool.and_eq_true, Bool.and_eq_true, bne_iff_ne, bne_iff_ne, Bool.not_eq_true',
    and_iff_right hslash]

theorem slash_not_mem {s : Str} (h : ∀ c ∈ s, endsAuthority c = false) : slash ∉ s := fun hin =>
  absurd (h _ hin) (by decide)

/-- A userinfo is masked exactly when it has a scheme in front and is a run, or is the mask. -/
theorem masked_iff {rule : MaskRule CodePoint} (hrule : Strips rule) {isProxy : Bool}
    {value front userinfo behind : Str} (h : HasUserinfo isProxy value front userinfo behind)
    (hne : userinfo ≠ []) :
    rule.maskAll value = rule.maskAll front ++ (rule.mask ++ atSign :: rule.maskAll behind) ↔
      if front = [] then userinfo = rule.mask
      else atSign ∉ userinfo ∧ ∀ c ∈ userinfo, isSpace c = false := by
  have hslash : rule.last ∉ userinfo := hrule.last ▸ slash_not_mem h.inside
  rw [h.parts, ← hrule.stop]
  cases h.starts with
  | @scheme s hin hfirst =>
    have hfront : s ++ lit "://" = (s ++ lit ":/") ++ [rule.last] := by
      rw [hrule.last, List.append_assoc]
      rfl
    have hopen : rule.opener <:+ (s ++ lit ":/") ++ [rule.last] := by
      rw [← hfront]
      exact hrule.opener.trans (List.suffix_append s (lit "://"))
    have hmaskFront : rule.maskAll (s ++ lit "://") = rule.maskAll (s ++ lit ":/") ++ [rule.last] := by
      rw [hfront]
      exact rule.maskFrom_append [] (s ++ lit ":/") [] (Nat.zero_le _)
    have hhides := @MaskRule.maskAll_hides_iff _ _ rule (s ++ lit ":/") userinfo behind hopen hne hslash
    have hshape : ∀ t u : Str, (t ++ [rule.last]) ++ u = t ++ rule.last :: u := fun t u => by simp
    rw [hmaskFront, hfront, hshape, hshape, hhides, if_neg (by simp), hrule.plain, hrule.stop]
    constructor
    · intro hplain
      exact ⟨fun hin => ((isRunChar_iff (h.inside _ hin)).mp (hplain _ hin)).1 rfl,
        fun c hc => ((isRunChar_iff (h.inside c hc)).mp (hplain c hc)).2⟩
    · rintro ⟨hat, hspace⟩ c hc
      exact (isRunChar_iff (h.inside c hc)).mpr ⟨fun heq => hat (heq ▸ hc), hspace c hc⟩
  | bare hproxy hnone =>
    have hquiet := @MaskRule.maskAll_quiet _ _ rule userinfo behind hslash
    rw [if_pos rfl, List.nil_append, hquiet]
    show userinfo ++ rule.stop :: rule.maskAll behind = rule.mask ++ rule.stop :: rule.maskAll behind ↔ _
    exact ⟨fun heq => List.append_cancel_right heq, fun heq => by rw [heq]⟩

/-- A value is reported without its userinfo, and else as it is, exactly when it can be stripped. -/
theorem hidden_iff {rule : MaskRule CodePoint} (hrule : Strips rule) (isProxy : Bool) (value : Str) :
    Hidden rule isProxy value (rule.maskAll value) ↔ Strippable rule isProxy value := by
  have hself := @MaskRule.maskAll_eq_self_iff _ _ rule value
  rw [hrule.plain, hrule.stop] at hself
  constructor
  · intro h
    exact ⟨fun front userinfo behind hparts hne =>
      (masked_iff hrule hparts hne).mp (h.masked front userinfo behind hparts hne),
        fun hnone => hself.mp (h.unchanged hnone)⟩
  · intro h
    exact ⟨fun front userinfo behind hparts hne =>
      (masked_iff hrule hparts hne).mpr (h.userinfo front userinfo behind hparts hne),
        fun hnone => hself.mpr (h.others hnone)⟩

/-! ## All reports -/

/-- No URL of `detect_registries` and no string of `collect_proxy_settings` shows a userinfo, and
the values without one are unchanged. -/
structure CredentialsHidden (isAlnum : CodePoint → Bool) (files : ConfigFiles)
    (env : Str → Option Str) (run : CommandRunner) : Prop where
  registries : List.Forall₂ (fun m config => Hidden registryRule false m.value config.url)
    (registryMatches isAlnum files) (detectRegistries isAlnum files)
  environment : List.Forall₂ (fun item reported => Hidden proxyRule true item.2 reported.2)
    (proxyVars env) (collectProxySettings env run).envProxies
  git : Option.Rel (Hidden proxyRule true) (gitProxyValue run) (collectProxySettings env run).gitProxy

/-- Each value can be stripped by its stripper. -/
structure AllStrippable (isAlnum : CodePoint → Bool) (files : ConfigFiles)
    (env : Str → Option Str) (run : CommandRunner) : Prop where
  registries : ∀ m ∈ registryMatches isAlnum files, Strippable registryRule false m.value
  environment : ∀ item ∈ proxyVars env, Strippable proxyRule true item.2
  git : ∀ value ∈ gitProxyValue run, Strippable proxyRule true value

/-- Credentials stay hidden exactly where every value can be stripped. -/
theorem credentials_hidden_iff (isAlnum : CodePoint → Bool) (files : ConfigFiles)
    (env : Str → Option Str) (run : CommandRunner) :
    CredentialsHidden isAlnum files env run ↔ AllStrippable isAlnum files env run := by
  have hregistries : List.Forall₂ (fun m config => Hidden registryRule false m.value config.url)
      (registryMatches isAlnum files) (detectRegistries isAlnum files) ↔
        ∀ m ∈ registryMatches isAlnum files, Strippable registryRule false m.value := by
    rw [detectRegistries, List.forall₂_map_right_iff, List.forall₂_same]
    exact forall₂_congr fun m _ => hidden_iff registryRule_strips false m.value
  have henvironment : List.Forall₂ (fun item reported => Hidden proxyRule true item.2 reported.2)
      (proxyVars env) (collectProxySettings env run).envProxies ↔
        ∀ item ∈ proxyVars env, Strippable proxyRule true item.2 := by
    rw [collectProxySettings, List.forall₂_map_right_iff, List.forall₂_same]
    exact forall₂_congr fun item _ => hidden_iff proxyRule_strips true item.2
  have hgit : Option.Rel (Hidden proxyRule true) (gitProxyValue run)
      (collectProxySettings env run).gitProxy ↔
        ∀ value ∈ gitProxyValue run, Strippable proxyRule true value := by
    rw [collectProxySettings]
    cases gitProxyValue run with
    | none => exact iff_of_true .none fun value hvalue => by cases hvalue
    | some value =>
      have hone := hidden_iff proxyRule_strips true value
      constructor
      · rintro (⟨h⟩ | _) other hother
        cases hother
        exact hone.mp h
      · exact fun h => .some (hone.mpr (h value rfl))
  constructor
  · intro h
    exact ⟨hregistries.mp h.registries, henvironment.mp h.environment, hgit.mp h.git⟩
  · intro h
    exact ⟨hregistries.mpr h.registries, henvironment.mpr h.environment, hgit.mpr h.git⟩

/-! ## Examples -/

namespace Sample

/-- A project with a mirror, whose password has an at-sign. -/
def files : ConfigFiles := fun scope filename =>
  if scope = lit "project" ∧ filename = lit "pip.conf" then some "index-url = http://u:p@ss@host/"
  else none

def noRunner : CommandRunner := fun _ _ => ⟨false, []⟩

end Sample

/-- The end of the password stays in the URL. -/
theorem password_shows :
    (detectRegistries (fun _ => false) Sample.files).map RegistryConfig.url =
        [lit "http://<redacted>@ss@host/"] ∧
      ¬CredentialsHidden (fun _ => false) Sample.files (fun _ => none) Sample.noRunner := by
  have hmatches : registryMatches (fun _ => false) Sample.files =
      [⟨"pip", "pip.conf", "http://u:p@ss@host/", "project"⟩] := by rfl
  have hurl : stripRegistryCredentials "http://u:p@ss@host/" = lit "http://<redacted>@ss@host/" := by
    decide
  refine ⟨by rw [detectRegistries, hmatches]; exact congrArg (· :: []) hurl, fun h => ?_⟩
  have hregistries := h.registries
  rw [detectRegistries, hmatches, List.forall₂_map_right_iff, List.forall₂_same] at hregistries
  have hvalue := hregistries _ List.mem_cons_self
  have hall : (lit "u:p@ss").all (fun c => !endsAuthority c) = true := by decide
  have hparts : HasUserinfo false "http://u:p@ss@host/" (lit "http" ++ lit "://") "u:p@ss" "host/" :=
    ⟨.scheme ⟨lit "u:p@ss@host/", rfl⟩ (fun hin => absurd (containsText_iff.mpr hin) (by decide)), rfl,
      fun c hc => by simpa using List.all_eq_true.mp hall c hc, by decide⟩
  have hmasked := hvalue.masked _ _ _ hparts (by decide)
  exact absurd hmasked (by decide)

end DevRepro.Network
