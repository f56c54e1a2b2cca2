import Mathlib
import CloudWai.Base.Hex
import CloudWai.Deployment.Hook

/-!
# Whether a delivery is the provider's

`verifyGitDelivery`, with `computeSignature`, `signatureMatches` and `tokenMatches`. A
delivery may show two things: a signature, which is a digest of the body under the link's
secret, and a token, which is the secret itself. The header that holds the signature is
read leniently, and `signatureMatches_iff` says which texts pass.

The two are combined by *or*. So the token is also asked for where a signature was sent
and did not fit, and `verified_iff` says that this is the only way in for a delivery that
has not shown what it should.

The digest and the cipher are the library's: nothing is assumed of the digest but its
length, and of the cipher that it decrypts what it encrypted.

Mirrors `packages/auth/src/secrets.ts` and `verifyGitDelivery` of
`apps/api/src/procedures/git-links.ts`.
-/

namespace CloudWai.Deployment

open Base Grammar

/-- `SecretCipher` -/
structure SecretCipher where
  encrypt : (nonce secret : String) → String
  decrypt : String → Option String
  decrypts : ∀ nonce secret, decrypt (encrypt nonce secret) = some secret

/-- What SHA-256 makes of a text. -/
structure Digest where
  bytes : List UInt8
  length : bytes.length = 32

/-- A row of `project_git_links`. -/
structure GitLinkRow where
  link : ProjectGitLink
  secretEncrypted : String

/-- A row as `connectGitLink` writes it. -/
def GitLinkRow.connected (cipher : SecretCipher) (nonce secret : String)
    (link : ProjectGitLink) : GitLinkRow :=
  ⟨link, cipher.encrypt nonce secret⟩

abbrev GitLinks := List GitLinkRow

/-- The row of a link, by organization and id. -/
def GitLinks.row (links : GitLinks) (org : OrganizationId) (linkId : String) : Option GitLinkRow :=
  links.find? fun r => r.link.id == linkId && r.link.organizationId == org

/-- The link without its secret. -/
def GitLinks.getGitLinkForService (links : GitLinks) (org : OrganizationId) (linkId : String) :
    Option ProjectGitLink :=
  (links.row org linkId).map (·.link)

/-- The secret, as it is stored. -/
def GitLinks.getGitLinkSecret (links : GitLinks) (org : OrganizationId) (linkId : String) :
    Option String :=
  (links.row org linkId).map (·.secretEncrypted)

/-- A delivery as the route hands it on: its body word for word, and two headers. -/
structure VerifyGitDeliveryInput where
  organizationId : OrganizationId
  linkId : String
  body : String
  signature : Option String
  token : Option String

/-- The three refusals of `verifyGitDelivery`. -/
inductive VerificationRefusal where
  | unknownLink | notConfigured | badSignature
deriving DecidableEq, Repr

/-- A verified delivery's link, or why it is refused. -/
inductive GitDeliveryVerification where
  | ok (link : ProjectGitLink) (secret : String)
  | refused (reason : VerificationRefusal)

/-! ## Signatures and tokens -/

/-- `presented.slice(presented.indexOf("=") + 1)`, if there is a `=`. -/
def afterEquals (presented : String) : String :=
  if '=' ∈ presented.toList then
    String.ofList (presented.toList.dropWhile (· != '=')).tail
  else presented

/-- `signatureMatches` -/
def signatureMatches (expectedHex presented : String) : Bool :=
  if presented = "" then false
  else
    let value := afterEquals presented
    let candidate := Hex.decode (lowerCase (trim value)).toList
    let expected := Hex.decode (lowerCase expectedHex).toList
    if candidate.length ≠ expected.length ∨ candidate.length = 0 then false
    else candidate == expected

/-- `tokenMatches` -/
def tokenMatches (secret presented : String) : Bool :=
  if presented = "" then false
  else
    let candidate := presented.toByteArray
    let expected := secret.toByteArray
    if candidate.size ≠ expected.size then false else decide (candidate = expected)

/-- A header that is not there, or is empty, shows nothing. -/
def present (header : Option String) : Option String := header.filter (· != "")

/-- The header's value begins, white space aside, with the digits of the digest, in either
case, and no further pair of digits follows. -/
structure Carries (digest : Digest) (header : String) : Prop where
  digits : ∃ digits rest, (trim (afterEquals header)).toList = digits ++ rest ∧
    digits.map Hex.value = (Hex.encode digest.bytes).map Hex.value ∧
    ∀ a b tail, rest = a :: b :: tail → Hex.value a = none ∨ Hex.value b = none

theorem tokenMatches_iff {secret presented : String} :
    tokenMatches secret presented = true ↔ presented ≠ "" ∧ presented = secret := by
  unfold tokenMatches
  by_cases hempty : presented = ""
  · rw [if_pos hempty]
    exact ⟨nofun, fun h => absurd hempty h.1⟩
  · rw [if_neg hempty]
    dsimp only
    split
    next hsize =>
      refine ⟨nofun, fun h => absurd ?_ hsize⟩
      rw [h.2]
    next =>
      rw [decide_eq_true_eq, String.toByteArray_inj]
      exact ⟨fun h => ⟨hempty, h⟩, fun h => h.2⟩

section Hmac

-- HMAC-SHA256 of a body, under a secret
variable (hmac : String → String → Digest)

/-- `computeSignature` -/
def computeSignature (secret body : String) : String :=
  String.ofList (Hex.encode (hmac secret body).bytes)

/-- `verifyGitDelivery` -/
def verifyGitDelivery (cipher : Option SecretCipher) (links : GitLinks)
    (input : VerifyGitDeliveryInput) : GitDeliveryVerification :=
  match cipher with
  | none => .refused .notConfigured
  | some cipher =>
    match links.getGitLinkForService input.organizationId input.linkId with
    | none => .refused .unknownLink
    | some link =>
      match present (links.getGitLinkSecret input.organizationId input.linkId) with
      | none => .refused .unknownLink
      | some ciphertext =>
        match cipher.decrypt ciphertext with
        | none => .refused .notConfigured
        | some secret =>
          let expected := computeSignature hmac secret input.body
          let okBySignature := (present input.signature).any (signatureMatches expected)
          let okByToken := (present input.token).any (tokenMatches secret)
          if !okBySignature && !okByToken then .refused .badSignature else .ok link secret

variable {hmac}

theorem decode_cons {c : Char} (cs : List Char) (h : Hex.value c = none) :
    Hex.decode (c :: cs) = [] := by
  cases cs with
  | nil => rfl
  | cons d cs =>
    unfold Hex.decode
    rw [h]

/-- Lower case has the same digits. -/
theorem lowerChar_cases (c : Char) : (∃ d, lowerChar c = [d] ∧ Hex.value d = Hex.value c) ∨
    Hex.value c = none ∧ ∃ d cs, lowerChar c = d :: cs ∧ Hex.value d = none := by
  unfold lowerChar
  split
  next h =>
    refine .inr ⟨?_, 'k', [], rfl, by decide⟩
    rw [← Char.ofNat_toNat c, h]
    decide
  next =>
    split
    next h =>
      refine .inr ⟨?_, 'i', _, rfl, by decide⟩
      rw [← Char.ofNat_toNat c, h]
      decide
    next => exact .inl ⟨c.toLower, rfl, Hex.value_toLower c⟩

/-- Hexadecimal digits are read alike in both cases. -/
theorem decode_lowerCase (s : String) : Hex.decode (lowerCase s).toList = Hex.decode s.toList := by
  unfold lowerCase
  rw [String.toList_ofList]
  generalize s.toList = cs
  induction cs using Hex.decode.induct with
  | case1 a b rest x y hx hy ih =>
    have hsome : ∀ {c n}, Hex.value c = some n → ∃ d, lowerChar c = [d] ∧ Hex.value d = some n := by
      intro c n hc
      rcases lowerChar_cases c with ⟨d, hd, hv⟩ | ⟨hnone, _⟩
      · exact ⟨d, hd, hv.trans hc⟩
      · rw [hc] at hnone
        cases hnone
    obtain ⟨a', ha, hva⟩ := hsome hx
    obtain ⟨b', hb, hvb⟩ := hsome hy
    simp only [List.flatMap_cons, ha, hb, List.singleton_append, Hex.decode, hva, hvb, hx, hy, ih]
  | case2 a b rest h =>
    have hstop : ∀ {c d : Char} (cs : List Char), Hex.value c = Hex.value a ∧
        Hex.value d = Hex.value b → Hex.decode (c :: d :: cs) = [] := by
      rintro c d cs ⟨hc, hd⟩
      unfold Hex.decode
      rw [hc, hd]
      split
      next x y hx hy => exact (h x y hx hy).elim
      next => rfl
    rw [hstop rest ⟨rfl, rfl⟩, List.flatMap_cons, List.flatMap_cons]
    rcases lowerChar_cases a with ⟨a', ha, hva⟩ | ⟨_, d, cs, hd, hv⟩
    · rcases lowerChar_cases b with ⟨b', hb, hvb⟩ | ⟨hnone, d, cs, hd, hv⟩
      · rw [ha, hb]
        exact hstop _ ⟨hva, hvb⟩
      · rw [ha, hd]
        exact hstop _ ⟨hva, hv.trans hnone.symm⟩
    · rw [hd]
      exact decode_cons _ hv
  | case3 cs h =>
    rcases cs with _ | ⟨c, _ | ⟨d, rest⟩⟩
    · rfl
    · rw [List.flatMap_singleton]
      rcases lowerChar_cases c with ⟨d, hd, _⟩ | ⟨_, d, cs, hd, hv⟩
      · rw [hd]
        rfl
      · rw [hd]
        exact decode_cons _ hv
    · exact absurd rfl (h c d rest)

/-- **Which signatures pass.** -/
theorem signatureMatches_iff {secret body header : String} (hheader : header ≠ "") :
    signatureMatches (computeSignature hmac secret body) header = true ↔
      Carries (hmac secret body) header := by
  have hexpected : Hex.decode (lowerCase (computeSignature hmac secret body)).toList =
      (hmac secret body).bytes := by
    rw [decode_lowerCase, computeSignature, String.toList_ofList, Hex.decode_encode]
  have hread : signatureMatches (computeSignature hmac secret body) header = true ↔
      Hex.decode (trim (afterEquals header)).toList = (hmac secret body).bytes := by
    unfold signatureMatches
    rw [if_neg hheader]
    dsimp only
    rw [hexpected, decode_lowerCase]
    split
    next hlength =>
      refine ⟨nofun, fun heq => ?_⟩
      rw [heq] at hlength
      have := (hmac secret body).length
      omega
    next => exact beq_iff_eq
  rw [hread, Hex.decode_eq_iff]
  constructor
  · rintro ⟨digits, rest, hsplit, hdigits, hrest⟩
    exact ⟨digits, rest, hsplit, hdigits, Hex.decode_eq_nil_iff.mp hrest⟩
  · rintro ⟨digits, rest, hsplit, hdigits, hrest⟩
    exact ⟨digits, rest, hsplit, hdigits, Hex.decode_eq_nil_iff.mpr hrest⟩

/-! ## Who is let in -/

/-- The secret of the link a delivery names. -/
def linkSecret (cipher : Option SecretCipher) (links : GitLinks)
    (input : VerifyGitDeliveryInput) : Option String :=
  cipher.bind fun cipher =>
    (present (links.getGitLinkSecret input.organizationId input.linkId)).bind cipher.decrypt

variable (hmac)

/-- What a delivery has to show: a signature that fits, or, without any signature, the
secret as its token. -/
def Presents (secret : String) (input : VerifyGitDeliveryInput) : Prop :=
  match present input.signature with
  | some signature => Carries (hmac secret input.body) signature
  | none => present input.token = some secret

/-- The delivery is accepted. -/
def PassedOn (cipher : Option SecretCipher) (links : GitLinks) (input : VerifyGitDeliveryInput) :
    Prop :=
  ∃ link secret, verifyGitDelivery hmac cipher links input = .ok link secret

/-- A signature was sent that does not fit, and beside it the secret. -/
def TokenBeside (cipher : Option SecretCipher) (links : GitLinks)
    (input : VerifyGitDeliveryInput) : Prop :=
  ∃ secret signature, linkSecret cipher links input = some secret ∧
    present input.signature = some signature ∧ ¬ Carries (hmac secret input.body) signature ∧
      present input.token = some secret

variable {hmac} {cipher : Option SecretCipher} {links : GitLinks} {input : VerifyGitDeliveryInput}

theorem present_token_iff {secret : String} {token : Option String} :
    (present token).any (tokenMatches secret) = true ↔ present token = some secret := by
  cases htoken : present token with
  | none => exact ⟨nofun, nofun⟩
  | some t =>
    have ht : t ≠ "" := by
      have := (Option.filter_eq_some_iff.mp htoken).2
      exact bne_iff_ne.mp this
    rw [Option.any_some, tokenMatches_iff, Option.some.injEq]
    exact ⟨fun h => h.2, fun h => ⟨ht, h⟩⟩

theorem present_signature_iff {secret body : String} {signature : Option String} :
    (present signature).any (signatureMatches (computeSignature hmac secret body)) = true ↔
      ∃ s, present signature = some s ∧ Carries (hmac secret body) s := by
  cases hsignature : present signature with
  | none => exact ⟨nofun, nofun⟩
  | some s =>
    have hs : s ≠ "" := by
      have := (Option.filter_eq_some_iff.mp hsignature).2
      exact bne_iff_ne.mp this
    rw [Option.any_some, signatureMatches_iff hs]
    exact ⟨fun h => ⟨s, rfl, h⟩, fun ⟨_, heq, h⟩ => Option.some.inj heq ▸ h⟩

/-- **Who is let in**: whoever shows one of the two. -/
theorem accepted_iff : PassedOn hmac cipher links input ↔
    ∃ secret, linkSecret cipher links input = some secret ∧
      ((∃ s, present input.signature = some s ∧ Carries (hmac secret input.body) s) ∨
        present input.token = some secret) := by
  have hsecret : ∀ cipher : SecretCipher,
      links.getGitLinkForService input.organizationId input.linkId = none →
      linkSecret (some cipher) links input = none := by
    intro cipher hlink
    have hrow : links.row input.organizationId input.linkId = none := Option.map_eq_none_iff.mp hlink
    simp only [linkSecret, GitLinks.getGitLinkSecret, hrow]
    rfl
  unfold PassedOn verifyGitDelivery
  cases cipher with
  | none => exact ⟨nofun, nofun⟩
  | some cipher =>
    dsimp only
    cases hlink : links.getGitLinkForService input.organizationId input.linkId with
    | none =>
      rw [hsecret cipher hlink]
      exact ⟨nofun, nofun⟩
    | some link =>
      show _ ↔ ∃ secret, (present (links.getGitLinkSecret input.organizationId
        input.linkId)).bind cipher.decrypt = some secret ∧ _
      dsimp only
      cases present (links.getGitLinkSecret input.organizationId input.linkId) with
      | none => exact ⟨nofun, nofun⟩
      | some ciphertext =>
        rw [Option.bind_some]
        dsimp only
        cases cipher.decrypt ciphertext with
        | none => exact ⟨nofun, nofun⟩
        | some secret =>
          dsimp only
          have hshown : ((∃ s, present input.signature = some s ∧
              Carries (hmac secret input.body) s) ∨ present input.token = some secret) ↔
              ((present input.signature).any
                (signatureMatches (computeSignature hmac secret input.body)) = true ∨
                (present input.token).any (tokenMatches secret) = true) := by
            rw [present_signature_iff, present_token_iff]
          constructor
          · rintro ⟨_, _, h⟩
            refine ⟨secret, rfl, hshown.mpr ?_⟩
            split at h
            · cases h
            next hneither =>
              simpa [Bool.and_eq_true, Classical.or_iff_not_imp_left] using hneither
          · rintro ⟨_, hsame, h⟩
            obtain rfl := Option.some.inj hsame
            refine ⟨link, secret, if_neg ?_⟩
            rcases hshown.mp h with h | h
            · simp [h]
            · simp [h]

/-- **A delivery is accepted only if it shows what it should, exactly if no secret comes
beside a signature that does not fit.** -/
theorem verified_iff (hmac : String → String → Digest) (cipher : Option SecretCipher)
    (links : GitLinks) (input : VerifyGitDeliveryInput) :
    (PassedOn hmac cipher links input →
        ∃ secret, linkSecret cipher links input = some secret ∧ Presents hmac secret input) ↔
      ¬ TokenBeside hmac cipher links input := by
  constructor
  · rintro h ⟨secret, signature, hsecret, hsent, hnot, htoken⟩
    obtain ⟨_, hsecret', hshows⟩ := h (accepted_iff.mpr ⟨secret, hsecret, .inr htoken⟩)
    obtain rfl := Option.some.inj (hsecret.symm.trans hsecret')
    unfold Presents at hshows
    rw [hsent] at hshows
    exact hnot hshows
  · intro h haccepted
    obtain ⟨secret, hsecret, hshown⟩ := accepted_iff.mp haccepted
    refine ⟨secret, hsecret, ?_⟩
    unfold Presents
    cases hsent : present input.signature with
    | none =>
      rcases hshown with ⟨s, hs, _⟩ | htoken
      · rw [hsent] at hs
        cases hs
      · exact htoken
    | some signature =>
      rcases hshown with ⟨s, hs, hcarries⟩ | htoken
      · obtain rfl := Option.some.inj (hsent.symm.trans hs)
        exact hcarries
      · by_contra hnot
        exact h ⟨secret, signature, hsecret, hsent, hnot, htoken⟩

end Hmac

/-- A cipher that marks what it encrypted. -/
def markingCipher : SecretCipher where
  encrypt _ secret := "v1:" ++ secret
  decrypt text := some (String.ofList (text.toList.drop 3))
  decrypts _ secret := by
    have hlist : ("v1:" ++ secret).toList = ['v', '1', ':'] ++ secret.toList :=
      String.toList_append
    rw [hlist]
    exact congrArg some String.ofList_toList

/-- GitHub's link, a signature of no digits, and the secret in the token header: the
delivery is accepted whatever the digest. -/
theorem token_beside_signature :
    ¬ ∃ hmac : String → String → Digest,
      let links : GitLinks := [.connected markingCipher "iv" "whsec_0123456789"
        ⟨"link", 1, 1, .github, "acme/site", "main", true, 1⟩]
      let input : VerifyGitDeliveryInput :=
        ⟨1, "link", "{}", some "sha256=forged", some "whsec_0123456789"⟩
      PassedOn hmac (some markingCipher) links input →
        ∃ secret, linkSecret (some markingCipher) links input = some secret ∧
          Presents hmac secret input := by
  rintro ⟨hmac, h⟩
  have hsecret : linkSecret (some markingCipher)
      [.connected markingCipher "iv" "whsec_0123456789"
        ⟨"link", 1, 1, .github, "acme/site", "main", true, 1⟩]
      ⟨1, "link", "{}", some "sha256=forged", some "whsec_0123456789"⟩ =
        some "whsec_0123456789" := by
    decide +kernel
  have haccepted := (@accepted_iff hmac (some markingCipher) _ _).mpr
    ⟨_, hsecret, .inr (by decide +kernel)⟩
  obtain ⟨secret, _, hshows⟩ := h haccepted
  have hsent : present (some "sha256=forged") = some "sha256=forged" := by decide +kernel
  unfold Presents at hshows
  dsimp only at hshows
  rw [hsent] at hshows
  -- the header has no pair of digits to begin with
  have hread : Hex.decode (trim (afterEquals "sha256=forged")).toList = [] := by decide +kernel
  obtain ⟨digits, rest, hsplit, hdigits, hrest⟩ := hshows.digits
  have hbytes := (Hex.decode_eq_iff (hmac secret "{}").bytes _).mpr
    ⟨digits, rest, hsplit, hdigits, Hex.decode_eq_nil_iff.mpr hrest⟩
  rw [hread] at hbytes
  have hlength := (hmac secret "{}").length
  rw [← hbytes] at hlength
  cases hlength

end CloudWai.Deployment
