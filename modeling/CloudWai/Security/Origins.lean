import CloudWai.Base.Ipv6
import CloudWai.Security.Addresses
import CloudWai.Security.Loaders

/-!
# Which origins are accepted

The edge must not be told to forward to an origin that is reachable without it.
`validateEdgeRoute` guards the compiler and `securityEdgeConfigFromEnv` the
configuration, each with the same expression, which tests how a text begins:
`10.`, `192.168.`, `fd12:` and so on.

How a text begins says where it leads only if it is an address. `10.example.com`
begins as it should, and its owner decides what it resolves to. `internal_iff`
says that nothing else is wrong: an origin is handled as it ought to be unless
it begins, once trimmed, like a private address and is not, as it stands, the
text of an address. The configuration trims and the validation does not, so a
private address with blanks around it is one of those too.

Mirrors the guard of `packages/adapters/src/security-edge.ts` and the configuration of
`packages/database/src/edge-loaders.ts`.
-/

namespace CloudWai

namespace Security

open Base Pattern

/-! ## The configuration -/

/-- The environment, with what is not set left out. -/
abbrev Env := List (String × String)

/-- `split` -/
def split (s : String) (separator : Char) : List String :=
  (s.toList.splitOn separator).map String.ofList

/-- Entries between semicolons; what is no bot is left out. -/
def parseBotAllowList : Option String → List VerifiedBot
  | none => []
  | some raw =>
    if raw = "" then []
    else (split raw ';').filterMap fun entry =>
      let trimmed := Grammar.trim entry
      if trimmed = "" then none
      else match split trimmed ':' with
        | [name, userAgent, confirmSuffix] =>
          let bot : VerifiedBot :=
            ⟨Grammar.trim name, Grammar.trim userAgent, Grammar.trim confirmSuffix⟩
          if validateVerifiedBot bot = .ok then some bot else none
        | _ => none

/-- `/^SECURITY_EDGE_TOKEN__(.+)$/` -/
def tokenKey : Pattern :=
  seq (lit "SECURITY_EDGE_TOKEN__")
    (plus (one fun c => !List.contains [0xA, 0xD, 0x2028, 0x2029] c.toNat))

/-- `tokens` -/
def edgeTokens (env : Env) : List (String × String) :=
  env.filterMap fun (key, value) =>
    if tokenKey.test key && Grammar.trim value != "" then
      some (String.ofList (key.toList.drop "SECURITY_EDGE_TOKEN__".length), Grammar.trim value)
    else none

def securityEdgeConfigFromEnv (env : Env) : Option EdgeConfig :=
  let edgeUrl := Grammar.trim ((env.lookup "SECURITY_EDGE_URL").getD "")
  let origin := Grammar.trim ((env.lookup "SECURITY_EDGE_ORIGIN").getD "")
  if edgeUrl = "" || origin = "" then none
  else if !Grammar.privateHost.test origin then none
  else if (edgeTokens env).isEmpty then none
  else some {
    edgeUrl
    origin
    tokens := fun org => (edgeTokens env).lookup s!"{org}"
    botAllowList := parseBotAllowList (env.lookup "SECURITY_EDGE_BOT_ALLOWLIST") }

/-- A text is an address that is not routed publicly, perhaps with a port. -/
def Internal (v : String) : Prop := ∃ ip, Endpoint.read v.toList = some ip ∧ ip.Internal

/-- The compiler takes the origin. -/
def RouteAccepts (v : String) : Prop :=
  ∃ route : EdgeRoute, route.origin = v ∧ validateEdgeRoute route = .ok

/-- The variable `SECURITY_EDGE_ORIGIN`, set to this text, gives this configuration. -/
def Configures (v : String) (config : EdgeConfig) : Prop :=
  ∃ env : Env, env.lookup "SECURITY_EDGE_ORIGIN" = some v ∧
    securityEdgeConfigFromEnv env = some config

/-- What is accepted of an origin's text leads nowhere public, and both guards agree
on it. -/
structure LeadsInside (v : String) : Prop where
  route : RouteAccepts v → Internal v
  env : ∀ config, Configures v config → Internal config.origin
  same : RouteAccepts v ↔ ∃ config, Configures v config

/-! ## How an accepted text begins -/

/-- The texts `PRIVATE_HOST` looks for. -/
inductive Begins : List Char → Prop
  | ten : Begins ['1', '0', '.']
  | loopback : Begins ['1', '2', '7', '.']
  | teens {e : Char} (h : '6' ≤ e ∧ e ≤ '9') : Begins ['1', '7', '2', '.', '1', e, '.']
  | twenties {e : Char} (h : Grammar.digit e = true) : Begins ['1', '7', '2', '.', '2', e, '.']
  | thirties {e : Char} (h : e = '0' ∨ e = '1') : Begins ['1', '7', '2', '.', '3', e, '.']
  | home : Begins ['1', '9', '2', '.', '1', '6', '8', '.']
  | linkLocal : Begins ['1', '6', '9', '.', '2', '5', '4', '.']
  | unique {c a b : Char} (hc : c = 'c' ∨ c = 'd') (ha : Grammar.hexDigit a = true)
      (hb : Grammar.hexDigit b = true) : Begins ['f', c, a, b, ':']
  | bracketed {c a b : Char} (hc : c = 'c' ∨ c = 'd') (ha : Grammar.hexDigit a = true)
      (hb : Grammar.hexDigit b = true) : Begins ['[', 'f', c, a, b, ':']

variable {v : String} {w x r : List Char}

/-- How an accepted text begins. -/
theorem begins_of_test (h : Grammar.privateHost.test v = true) :
    ∃ x r, Begins x ∧ v.toList = x ++ r := by
  -- a match of the whole is a match of how it begins, and anything
  rw [test_iff, Grammar.privateHost, matches_seq] at h
  obtain ⟨x, r, hv, hx, _⟩ := h
  refine ⟨x, r, ?_, hv⟩
  simp only [matches_alt, matches_seq, matches_lit, matches_ch, matches_one, opt, matches_eps,
    times] at hx
  -- the six alternatives, of which two have choices of their own
  rcases hx with hx | hx | hx | hx | hx | hx
  · rw [hx]
    exact .ten
  · rw [hx]
    exact .loopback
  · obtain ⟨_, _, hx, rfl, _, _, rfl, hmid, rfl⟩ := hx
    rcases hmid with hmid | hmid | hmid
    · obtain ⟨_, _, rfl, rfl, e, he, rfl⟩ := hmid
      rw [hx]
      exact .teens (by simpa using he)
    · obtain ⟨_, _, rfl, rfl, e, he, rfl⟩ := hmid
      rw [hx]
      exact .twenties he
    · obtain ⟨_, _, rfl, rfl, e, he, rfl⟩ := hmid
      rw [hx]
      exact .thirties (by simpa using he)
  · rw [hx]
    exact .home
  · rw [hx]
    exact .linkLocal
  -- with the bracket or without it
  · obtain ⟨_, _, hx, hopen, _, _, rfl, rfl, _, _, rfl, ⟨c, hc, rfl⟩, _, _, rfl,
      ⟨_, _, rfl, ⟨a, ha, rfl⟩, _, _, rfl, ⟨b, hb, rfl⟩, rfl⟩, rfl⟩ := hx
    have hcd : c = 'c' ∨ c = 'd' := by simpa using hc
    rw [hx]
    rcases hopen with rfl | rfl
    · exact .unique hcd ha hb
    · exact .bracketed hcd ha hb

/-- And what begins so is accepted. -/
theorem test_of_begins (hx : Begins x) (hv : v.toList = x ++ r) :
    Grammar.privateHost.test v = true := by
  rw [test_iff, Grammar.privateHost, matches_seq]
  refine ⟨x, r, hv, ?_, matches_rest⟩
  clear hv
  have hlit : ∀ {t : String} {y : List Char}, y = t.toList → Matches (lit t) y :=
    fun h => matches_lit.mpr h
  cases hx with
  | ten => exact .left (hlit rfl)
  | loopback => exact .right (.left (hlit rfl))
  | teens h =>
    exact .right (.right (.left (.seq (hlit rfl)
      (.seq (.left (.seq (matches_ch.mpr rfl) (.one (by simpa using h)))) (matches_ch.mpr rfl)))))
  | twenties h =>
    exact .right (.right (.left (.seq (hlit rfl)
      (.seq (.right (.left (.seq (matches_ch.mpr rfl) (.one h)))) (matches_ch.mpr rfl)))))
  | thirties h =>
    exact .right (.right (.left (.seq (hlit rfl)
      (.seq (.right (.right (.seq (matches_ch.mpr rfl) (.one (by simpa using h)))))
        (matches_ch.mpr rfl)))))
  | home => exact .right (.right (.right (.left (hlit rfl))))
  | linkLocal => exact .right (.right (.right (.right (.left (hlit rfl)))))
  | unique hc ha hb =>
    exact .right (.right (.right (.right (.right (.seq (.left .eps)
      (.seq (matches_ch.mpr rfl) (.seq (.one (by simpa using hc))
        (.seq (.seq (.one ha) (.seq (.one hb) .eps)) (matches_ch.mpr rfl)))))))))
  | bracketed hc ha hb =>
    exact .right (.right (.right (.right (.right (.seq (.right (matches_ch.mpr rfl))
      (.seq (matches_ch.mpr rfl) (.seq (.one (by simpa using hc))
        (.seq (.seq (.one ha) (.seq (.one hb) .eps)) (matches_ch.mpr rfl)))))))))

/-! ## Where an address that begins so leads -/

/-- A quad's first octet, and where a text has a second dot its second one. -/
theorem first_octet {a : Ipv4.Address} {y : List Char} (hx : '.' ∉ x)
    (h : Ipv4.Address.read (x ++ '.' :: y) = some a) :
    ∃ n q, Ipv4.numeral 3 x = some n ∧ a.octets = n :: q ∧
      (y.splitOn '.').mapM (Ipv4.numeral 3) = some q := by
  have hparts := Ipv4.octets_of_read h
  rw [List.splitOn_append_cons_self_of_not_mem hx, List.mapM_cons] at hparts
  simp only [Option.pure_def, Option.bind_eq_bind, Option.bind_eq_some_iff,
    Option.some.injEq] at hparts
  obtain ⟨n, hn, q, hq, hcons⟩ := hparts
  exact ⟨n, q, hn, hcons.symm, hq⟩

theorem second_octet {q : List Nat} {z : List Char} (hz : '.' ∉ z)
    (h : ((z ++ '.' :: r).splitOn '.').mapM (Ipv4.numeral 3) = some q) :
    ∃ m q', Ipv4.numeral 3 z = some m ∧ q = m :: q' := by
  rw [List.splitOn_append_cons_self_of_not_mem hz, List.mapM_cons] at h
  simp only [Option.pure_def, Option.bind_eq_bind, Option.bind_eq_some_iff,
    Option.some.injEq] at h
  obtain ⟨m, hm, q', _, hcons⟩ := h
  exact ⟨m, q', hm, hcons.symm⟩

/-- A text whose first octet is written out. -/
theorem dotted_first {ip : Ip} {n : Nat} (hdigits : ∀ c ∈ x, Ipv4.digit c = true)
    (hn : Ipv4.numeral 3 x = some n) (h : Endpoint.read (x ++ '.' :: r) = some ip) :
    ∃ a q, ip = .v4 a ∧ a.octets = n :: q ∧
      ((r.takeWhile (· != ':')).splitOn '.').mapM (Ipv4.numeral 3) = some q := by
  have hnot : ∀ {d : Char}, Ipv4.digit d = false → d ∉ x := by
    intro d hd hmem
    rw [hdigits d hmem] at hd
    cases hd
  have htake : (x ++ '.' :: r).takeWhile (· != ':') = x ++ '.' :: r.takeWhile (· != ':') := by
    rw [List.takeWhile_append_of_pos, List.takeWhile_cons_of_pos (by decide)]
    intro c hc
    have : c ≠ ':' := fun he => hnot (d := ':') (by decide) (he ▸ hc)
    simpa using this
  have hhead : (x ++ '.' :: r).head? ≠ some '[' := by
    cases x with
    | nil => simp
    | cons d x =>
      intro he
      exact hnot (d := '[') (by decide) (by rw [← Option.some.inj he]; exact List.mem_cons_self)
  obtain ⟨a, hip, ha⟩ := Endpoint.dotted h hhead (by rw [htake]; simp)
  rw [htake] at ha
  obtain ⟨m, q, hm, hoctets, hrest⟩ := first_octet (hnot (by decide)) ha
  rw [hn] at hm
  cases hm
  exact ⟨a, q, hip, hoctets, hrest⟩

/-- And the second one too. -/
theorem dotted_second {ip : Ip} {n m : Nat} {z : List Char} (hdigits : ∀ c ∈ x, Ipv4.digit c = true)
    (hn : Ipv4.numeral 3 x = some n) (hz : ∀ c ∈ z, Ipv4.digit c = true)
    (hm : Ipv4.numeral 3 z = some m)
    (h : Endpoint.read (x ++ '.' :: (z ++ '.' :: r)) = some ip) :
    ∃ a q, ip = .v4 a ∧ a.octets = n :: m :: q := by
  obtain ⟨a, q, hip, hoctets, hrest⟩ := dotted_first hdigits hn h
  have hnot : ∀ {d : Char}, Ipv4.digit d = false → d ∉ z := by
    intro d hd hmem
    rw [hz d hmem] at hd
    cases hd
  have htake : (z ++ '.' :: r).takeWhile (· != ':') = z ++ '.' :: r.takeWhile (· != ':') := by
    rw [List.takeWhile_append_of_pos, List.takeWhile_cons_of_pos (by decide)]
    intro c hc
    have : c ≠ ':' := fun he => hnot (d := ':') (by decide) (he ▸ hc)
    simpa using this
  rw [htake] at hrest
  obtain ⟨m', q', hm', hq⟩ := second_octet (hnot (by decide)) hrest
  rw [hm] at hm'
  cases hm'
  exact ⟨a, q', hip, by rw [hoctets, hq]⟩

/-- The second octet of a text that begins with `172.`. -/
theorem two_digits {d e : Char} (hd : Ipv4.digit d = true) (he : Ipv4.digit e = true) :
    Ipv4.numeral 3 [d, e] = some (10 * (d.toNat - 48) + (e.toNat - 48)) := by
  unfold Ipv4.numeral
  rw [if_pos ⟨by simp, by simp, by simp [hd, he]⟩]
  simp [Ipv4.decimal]

theorem v4_internal {a : Ipv4.Address} {n m : Nat} {q : List Nat} (h : a.octets = n :: m :: q)
    (hr : n = 172 ∧ 16 ≤ m ∧ m ≤ 31 ∨ n = 192 ∧ m = 168 ∨ n = 169 ∧ m = 254) :
    (Ip.v4 a).Internal := by
  show InternalOctets a.octets
  rw [h]
  rcases hr with ⟨rfl, hm⟩ | ⟨rfl, hm⟩ | ⟨rfl, hm⟩
  · exact hm
  · exact hm
  · exact hm

theorem digit_of_range {e : Char} (h : '6' ≤ e ∧ e ≤ '9') : Ipv4.digit e = true := by
  have hzero : '0' ≤ e := Char.le_trans (by decide) h.1
  simp [Ipv4.digit, hzero, h.2]

theorem mid_internal {ip : Ip} {d e : Char} (hd : Ipv4.digit d = true) (he : Ipv4.digit e = true)
    (hrange : 16 ≤ 10 * (d.toNat - 48) + (e.toNat - 48) ∧
      10 * (d.toNat - 48) + (e.toNat - 48) ≤ 31)
    (h : Endpoint.read (['1', '7', '2', '.', d, e, '.'] ++ r) = some ip) : ip.Internal := by
  have hdigits : ∀ c ∈ [d, e], Ipv4.digit c = true := by
    simp [hd, he]
  obtain ⟨a, q, rfl, ho⟩ := dotted_second (x := ['1', '7', '2']) (z := [d, e])
    (List.all_eq_true.mp (by decide))
    (show _ = some 172 by decide) hdigits (two_digits hd he) h
  exact v4_internal ho (.inl ⟨rfl, hrange⟩)

/-- A hexadecimal digit has a value below sixteen. -/
theorem hexDigit_value {c : Char} (h : Grammar.hexDigit c = true) :
    ∃ n, Hex.value c = some n ∧ n < 16 := by
  have hle : ∀ {a b : Char}, a ≤ b → a.toNat ≤ b.toNat := fun h => h
  have hsome : (Hex.value c).isSome = true := by
    simp only [Grammar.hexDigit, Grammar.digit, Bool.or_eq_true, Bool.and_eq_true,
      decide_eq_true_eq] at h
    unfold Hex.value
    dsimp only
    rcases h with ⟨hlow, hhigh⟩ | ⟨hlow, hhigh⟩
    · have hlow := hle hlow
      have hhigh := hle hhigh
      simp at hlow hhigh
      rw [if_pos ⟨hlow, hhigh⟩]
      rfl
    · have hlow := hle hlow
      have hhigh := hle hhigh
      simp at hlow hhigh
      rw [if_neg (by omega), if_pos ⟨hlow, hhigh⟩]
      rfl
  obtain ⟨n, hn⟩ := Option.isSome_iff_exists.mp hsome
  exact ⟨n, hn, Hex.value_lt hn⟩

theorem hexDigit_ne {c d : Char} (h : Grammar.hexDigit c = true) (hd : Grammar.hexDigit d = false) :
    d ≠ c := by
  intro he
  rw [he, h] at hd
  cases hd

/-- An address that begins with `fc` or `fd` is a unique local one. -/
theorem unique_internal {ip : Ip} {c a b : Char} (hc : c = 'c' ∨ c = 'd')
    (ha : Grammar.hexDigit a = true) (hb : Grammar.hexDigit b = true)
    (h : Endpoint.read (['f', c, a, b] ++ ':' :: r) = some ip ∨
      Endpoint.read ('[' :: (['f', c, a, b] ++ ':' :: r)) = some ip) : ip.Internal := by
  -- two characters of hexadecimal digits, so the first group is `fc..` or `fd..`
  have hhex : Grammar.hexDigit c = true := by
    rcases hc with rfl | rfl
    · decide
    · decide
  have hnot : ∀ {d : Char}, Grammar.hexDigit d = false → d ∉ ['f', c, a, b] := by
    intro d hd
    have hf : Grammar.hexDigit 'f' = true := by decide
    simp only [List.mem_cons, List.not_mem_nil, or_false, not_or]
    exact ⟨hexDigit_ne hf hd, hexDigit_ne hhex hd, hexDigit_ne ha hd, hexDigit_ne hb hd⟩
  -- what is read has the group as it is written
  obtain ⟨address, n, rfl, hn, hhead⟩ := Endpoint.grouped (by decide)
    ⟨hnot (by decide), hnot (by decide)⟩ h
  refine .inr ⟨n, hhead, .inl ?_⟩
  obtain ⟨na, hna, hla⟩ := hexDigit_value ha
  obtain ⟨nb, hnb, hlb⟩ := hexDigit_value hb
  have hf : Hex.value 'f' = some 15 := by decide
  -- of a group `fc00` to `fdff` the high byte is 252 or 253
  have hcv : Hex.value c = some 12 ∨ Hex.value c = some 13 := by
    rcases hc with rfl | rfl
    · decide
    · decide
  unfold Ipv6.group at hn
  rw [if_pos (by simp)] at hn
  rcases hcv with hcv | hcv
  · simp [hf, hcv, hna, hnb] at hn
    omega
  · simp [hf, hcv, hna, hnb] at hn
    omega

/-- **An accepted text that is an address leads to no public one.** -/
theorem internal_of_begins {ip : Ip} (hx : Begins x) (h : Endpoint.read (x ++ r) = some ip) :
    ip.Internal := by
  have hle : ∀ {a b : Char}, a ≤ b → a.toNat ≤ b.toNat := fun h => h
  cases hx with
  -- the first number decides
  | ten =>
    obtain ⟨a, q, rfl, ho, _⟩ := dotted_first (x := ['1', '0']) (List.all_eq_true.mp (by decide))
      (show _ = some 10 by decide) h
    show InternalOctets a.octets
    rw [ho]
    trivial
  | loopback =>
    obtain ⟨a, q, rfl, ho, _⟩ := dotted_first (x := ['1', '2', '7']) (List.all_eq_true.mp (by decide))
      (show _ = some 127 by decide) h
    show InternalOctets a.octets
    rw [ho]
    trivial
  -- or the first two do, and of the second one the digits
  | teens he =>
    have hdigit := digit_of_range he
    have hlow := hle he.1
    have hhigh := hle he.2
    simp at hlow hhigh
    exact mid_internal (by decide) hdigit (by simp; omega) h
  | twenties he =>
    have hdigit := he
    simp only [Grammar.digit, Bool.and_eq_true, decide_eq_true_eq] at hdigit
    have hlow := hle hdigit.1
    have hhigh := hle hdigit.2
    simp at hlow hhigh
    exact mid_internal (by decide) he (by simp; omega) h
  | thirties he =>
    rcases he with rfl | rfl
    · exact mid_internal (by decide) (by decide) (by decide) h
    · exact mid_internal (by decide) (by decide) (by decide) h
  | home =>
    obtain ⟨a, q, rfl, ho⟩ := dotted_second (x := ['1', '9', '2']) (z := ['1', '6', '8'])
      (List.all_eq_true.mp (by decide)) (show _ = some 192 by decide)
      (List.all_eq_true.mp (by decide)) (show _ = some 168 by decide) h
    exact v4_internal ho (.inr (.inl ⟨rfl, rfl⟩))
  | linkLocal =>
    obtain ⟨a, q, rfl, ho⟩ := dotted_second (x := ['1', '6', '9']) (z := ['2', '5', '4'])
      (List.all_eq_true.mp (by decide)) (show _ = some 169 by decide)
      (List.all_eq_true.mp (by decide)) (show _ = some 254 by decide) h
    exact v4_internal ho (.inr (.inr ⟨rfl, rfl⟩))
  | unique hc ha hb => exact unique_internal hc ha hb (.inl h)
  | bracketed hc ha hb => exact unique_internal hc ha hb (.inr h)

/-! ## Trimming -/

/-- No character of an address is a blank. -/
theorem not_space_of_mark {c : Char} (h : Endpoint.Mark c) : Grammar.jsSpace c = false := by
  rcases h with (h | rfl) | rfl | rfl | rfl
  · unfold Hex.value at h
    dsimp only at h
    simp only [Grammar.jsSpace]
    split at h
    · simp
      omega
    · split at h
      · simp
        omega
      · split at h
        · simp
          omega
        · cases h
  · decide
  · decide
  · decide
  · decide

theorem mark_of_hexDigit {c : Char} (h : Grammar.hexDigit c = true) : Endpoint.Mark c := by
  obtain ⟨n, hn, _⟩ := hexDigit_value h
  exact .inl (.inl (by rw [hn]; rfl))

/-- The beginnings have nothing to trim. -/
theorem spaceless (hx : Begins x) : ∀ c ∈ x, Grammar.jsSpace c = false := by
  -- no digit, dot or bracket is a blank
  have hhex : ∀ {c : Char}, Grammar.hexDigit c = true → Grammar.jsSpace c = false :=
    fun h => not_space_of_mark (mark_of_hexDigit h)
  have hmid : ∀ {d e : Char}, Ipv4.digit d = true → Ipv4.digit e = true →
      ∀ c ∈ ['1', '7', '2', '.', d, e, '.'], Grammar.jsSpace c = false := by
    intro d e hd he
    simp only [List.mem_cons, List.not_mem_nil, or_false, forall_eq_or_imp, forall_eq]
    exact ⟨by decide, by decide, by decide, by decide, digit_not_space hd, digit_not_space he,
      by decide⟩
  have hcd : ∀ {c : Char}, c = 'c' ∨ c = 'd' → Grammar.jsSpace c = false := by
    intro c hc
    rcases hc with rfl | rfl
    · decide
    · decide
  cases hx with
  | ten => exact Grammar.none_of_all (by decide)
  | loopback => exact Grammar.none_of_all (by decide)
  | teens he => exact hmid (by decide) (digit_of_range he)
  | twenties he => exact hmid (by decide) he
  | thirties he =>
    rcases he with rfl | rfl
    · exact Grammar.none_of_all (by decide)
    · exact Grammar.none_of_all (by decide)
  | home => exact Grammar.none_of_all (by decide)
  | linkLocal => exact Grammar.none_of_all (by decide)
  | unique hc ha hb =>
    simp only [List.mem_cons, List.not_mem_nil, or_false, forall_eq_or_imp, forall_eq]
    exact ⟨by decide, hcd hc, hhex ha, hhex hb, by decide⟩
  | bracketed hc ha hb =>
    simp only [List.mem_cons, List.not_mem_nil, or_false, forall_eq_or_imp, forall_eq]
    exact ⟨by decide, by decide, hcd hc, hhex ha, hhex hb, by decide⟩

/-- Trimming leaves how a text begins. -/
theorem trim_of_begins (hx : Begins x) (hv : v.toList = x ++ r) :
    ∃ r', (Grammar.trim v).toList = x ++ r' := by
  have hne : x ≠ [] := by
    cases hx <;> simp
  have hstart : (x ++ r).dropWhile Grammar.jsSpace = x ++ r := by
    cases x with
    | nil => exact absurd rfl hne
    | cons c x =>
      have hc := spaceless hx c List.mem_cons_self
      rw [List.cons_append, List.dropWhile_cons_of_neg (by simp [hc])]
  have hend : x.reverse.dropWhile Grammar.jsSpace = x.reverse := by
    cases hrev : x.reverse with
    | nil => rfl
    | cons c y =>
      have hc := spaceless hx c (List.mem_reverse.mp (by rw [hrev]; exact List.mem_cons_self))
      rw [List.dropWhile_cons_of_neg (by simp [hc])]
  unfold Grammar.trim
  rw [hv, hstart, String.toList_ofList, List.reverse_append, List.dropWhile_append]
  split
  · rw [hend, List.reverse_reverse]
    exact ⟨[], (List.append_nil x).symm⟩
  · rw [List.reverse_append, List.reverse_reverse]
    exact ⟨_, rfl⟩

theorem test_trim (h : Grammar.privateHost.test v = true) :
    Grammar.privateHost.test (Grammar.trim v) = true := by
  obtain ⟨x, r, hx, hv⟩ := begins_of_test h
  obtain ⟨r', hr'⟩ := trim_of_begins hx hv
  exact test_of_begins hx hr'

theorem trim_of_address {ip : Ip} (h : Endpoint.read v.toList = some ip) : Grammar.trim v = v :=
  trim_of_no_space fun c hc => not_space_of_mark (Endpoint.marks_of_read h c hc)

/-! ## The guards -/

theorem routeAccepts_iff : RouteAccepts v ↔ Grammar.privateHost.test v = true := by
  constructor
  · intro ⟨route, horigin, hok⟩
    unfold validateEdgeRoute at hok
    rw [horigin] at hok
    by_contra htest
    rw [Bool.not_eq_true] at htest
    rw [htest] at hok
    split at hok
    · cases hok
    · split at hok
      · cases hok
      · cases hok
  · intro htest
    refine ⟨⟨"app.example.com", v, "/", 1, none⟩, rfl, ?_⟩
    have hhost : Grammar.hostPattern.test "app.example.com" = true := by decide +kernel
    have hpath : Grammar.pathPattern.test "/" = true := by decide +kernel
    simp [validateEdgeRoute, hhost, hpath, htest]

/-- A configured origin passed the test, trimmed. -/
theorem origin_of_configures {config : EdgeConfig} (h : Configures v config) :
    config.origin = Grammar.trim v ∧ Grammar.privateHost.test (Grammar.trim v) = true := by
  obtain ⟨env, hlookup, hconfig⟩ := h
  unfold securityEdgeConfigFromEnv at hconfig
  rw [hlookup, Option.getD_some] at hconfig
  dsimp only at hconfig
  split at hconfig
  · cases hconfig
  · split at hconfig
    · cases hconfig
    · rename_i htest
      split at hconfig
      · cases hconfig
      · cases hconfig
        exact ⟨rfl, by simpa using htest⟩

/-- Any accepted text can be configured, with the other settings in order. -/
theorem configures_of_test (h : Grammar.privateHost.test (Grammar.trim v) = true) :
    ∃ config, Configures v config := by
  -- a configuration with this origin, and all the rest as it should be
  have hne : Grammar.trim v ≠ "" := by
    intro he
    rw [he] at h
    revert h
    decide
  have hurl : Grammar.trim "https://edge.internal:9443" ≠ "" := by decide
  let env : Env := [("SECURITY_EDGE_URL", "https://edge.internal:9443"),
    ("SECURITY_EDGE_TOKEN__1", "token"), ("SECURITY_EDGE_ORIGIN", v)]
  -- one token is enough
  have htokens : (edgeTokens env).isEmpty = false := by
    have hpass : (tokenKey.test "SECURITY_EDGE_TOKEN__1" && Grammar.trim "token" != "") = true := by
      decide +kernel
    have hmem : ∃ token, token ∈ edgeTokens env :=
      ⟨_, List.mem_filterMap.mpr ⟨("SECURITY_EDGE_TOKEN__1", "token"), by simp [env], if_pos hpass⟩⟩
    obtain ⟨token, hmem⟩ := hmem
    cases hempty : edgeTokens env with
    | nil =>
      rw [hempty] at hmem
      cases hmem
    | cons => rfl
  have hset : env.lookup "SECURITY_EDGE_ORIGIN" = some v := by
    simp [env, List.lookup_cons]
  have hedge : env.lookup "SECURITY_EDGE_URL" = some "https://edge.internal:9443" := by
    simp [env]
  -- no check of the reader stops it
  have hsome : (securityEdgeConfigFromEnv env).isSome = true := by
    unfold securityEdgeConfigFromEnv
    rw [hset, hedge, htokens]
    simp only [Option.getD_some]
    rw [if_neg (by simp [hne, hurl]), if_neg (by simp [h]), if_neg (by simp)]
    rfl
  obtain ⟨config, hconfig⟩ := Option.isSome_iff_exists.mp hsome
  exact ⟨config, env, hset, hconfig⟩

/-- **An origin is handled as it ought to be unless it begins, once trimmed, like a
private address without being the text of an address.** -/
theorem internal_iff (v : String) : LeadsInside v ↔
    (Grammar.privateHost.test (Grammar.trim v) = true → (Endpoint.read v.toList).isSome = true) := by
  constructor
  -- it is accepted, so it has to be an address
  · intro h htest
    obtain ⟨ip, hip, _⟩ := h.route (h.same.mpr (configures_of_test htest))
    rw [hip]
    rfl
  -- what begins like a private address and is one has no blanks around it
  · intro h
    have hread : Grammar.privateHost.test (Grammar.trim v) = true →
        Grammar.trim v = v ∧ Internal v := by
      intro htest
      obtain ⟨ip, hip⟩ := Option.isSome_iff_exists.mp (h htest)
      have htrim := trim_of_address hip
      rw [htrim] at htest
      obtain ⟨x, r, hx, hv⟩ := begins_of_test htest
      refine ⟨htrim, ip, hip, ?_⟩
      rw [hv] at hip
      exact internal_of_begins hx hip
    refine ⟨?_, ?_, ?_⟩
    · intro haccepts
      exact (hread (test_trim (routeAccepts_iff.mp haccepts))).2
    · intro config hconfig
      obtain ⟨horigin, htest⟩ := origin_of_configures hconfig
      obtain ⟨htrim, hinternal⟩ := hread htest
      rw [horigin, htrim]
      exact hinternal
    · rw [routeAccepts_iff]
      constructor
      · intro htest
        exact configures_of_test (test_trim htest)
      · intro ⟨config, hconfig⟩
        have htest := (origin_of_configures hconfig).2
        rw [(hread htest).1] at htest
        exact htest

/-- A name that begins like an address. -/
theorem name_accepted : ¬ LeadsInside "10.example.com" := by
  intro h
  obtain ⟨ip, hip, _⟩ := h.route (routeAccepts_iff.mpr (by decide +kernel))
  have hnone : Endpoint.read "10.example.com".toList = none := by decide +kernel
  rw [hnone] at hip
  cases hip

end Security

end CloudWai
