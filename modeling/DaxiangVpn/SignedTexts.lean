import DaxiangVpn.ControlFrames

/-!
# Signed texts

Requests and challenge proofs are signed as JSON arrays of strings. The escapes of `json.Marshal`
are a code in which no word begins another one, so an array is determined by its text, and texts of
the two kinds differ in their first element.
-/

namespace DaxiangVpn.SignedTexts
open List

open ControlFrames (intText takeInt takeInt_append)

/-! ## Strings -/

/-- What a loop over a string of Go meets: a character, or a byte that is not UTF-8. -/
inductive Rune
  | char (c : Char)
  | invalid (byte : UInt8)
  deriving DecidableEq

abbrev GoString := List Rune

def Utf8 (s : GoString) : Prop := ∀ u ∈ s, ∃ c, u = .char c

def ofText (t : List Char) : GoString := t.map .char

/-- The escape of a character in `json.Marshal`. -/
def escapeChar (c : Char) : List Char :=
  if c = '"' ∨ c = '\\' then ['\\', c]
  else if c = '\x08' then ['\\', 'b']
  else if c = '\x0c' then ['\\', 'f']
  else if c = '\n' then ['\\', 'n']
  else if c = '\r' then ['\\', 'r']
  else if c = '\t' then ['\\', 't']
  else if c.toNat < 32 ∨ c = '<' ∨ c = '>' ∨ c = '&' then
    ['\\', 'u', '0', '0', Nat.digitChar (c.toNat / 16), Nat.digitChar (c.toNat % 16)]
  else if c = '\u2028' ∨ c = '\u2029' then ['\\', 'u', '2', '0', '2', Nat.digitChar (c.toNat % 16)]
  else [c]

def escape : Rune → List Char
  | .char c => escapeChar c
  | .invalid _ => ['\\', 'u', 'f', 'f', 'f', 'd']

def quote (s : GoString) : List Char := '"' :: s.flatMap escape ++ ['"']

/-- The rest of an array after an element. -/
def rest : List GoString → List Char
  | [] => [']']
  | s :: ss => ',' :: quote s ++ rest ss

/-- `json.Marshal` of a list of strings. -/
def marshal : List GoString → List Char
  | [] => ['[', ']']
  | s :: ss => '[' :: quote s ++ rest ss

/-! ## Signed texts -/

/-- The fields of `SignedRequest` that are signed. -/
structure SignedRequest where
  purpose : GoString
  method : GoString
  path : GoString
  bodyDigest : GoString
  deviceID : GoString
  credentialID : GoString
  challengeID : GoString
  nonce : GoString
  requestID : GoString
  expires : ℤ

def bytes (t : List Char) : ByteArray := (String.ofList t).toUTF8

/-- `SigningBytes` of the hub. -/
def signingBytes (r : SignedRequest) : ByteArray :=
  bytes (marshal [ofText "zhvpn-device-request".toList, ofText "v2".toList, r.purpose, r.method,
  r.path, r.bodyDigest,
    r.deviceID, r.credentialID, r.challengeID, r.nonce, r.requestID, ofText (intText r.expires)])

/-- `Challenge` of the client. -/
structure Challenge where
  challengeId : GoString
  nonce : GoString
  expiresUnixSeconds : ℤ

/-- `SigningBytes` of the client. -/
def clientSigningBytes (purpose method path digest device credential : GoString) (ch : Challenge)
    (requestID : GoString) : ByteArray :=
  bytes (marshal [ofText "zhvpn-device-request".toList, ofText "v2".toList, purpose, method,
  path, digest, device,
    credential, ch.challengeId, ch.nonce, requestID, ofText (intText ch.expiresUnixSeconds)])

def challengeProofBytes (rawBodySHA256 clientNonce : GoString)
    (expiresUnixSeconds : ℤ) : ByteArray :=
  bytes (marshal [ofText "zhvpn-device-challenge".toList, ofText "v2".toList, ofText "POST".toList,
    ofText "/api/v2/challenges".toList, rawBodySHA256, clientNonce,
    ofText (intText expiresUnixSeconds)])

/-! ## Escapes -/

def special : List Char :=
  (List.range 32).map Char.ofNat ++ ['"', '\\', '<', '>', '&', '\u2028', '\u2029']

theorem escapeChar_special : ∀ c ∈ special, (escapeChar c).head? = some '\\' ∧
    ∀ d ∈ special, (escapeChar c).isPrefixOf (escapeChar d) = true → c = d := by
  have hall : (special.all fun c => ((escapeChar c).head? == some '\\') &&
      special.all fun d => !(escapeChar c).isPrefixOf (escapeChar d) || c == d) = true := by rfl
  simp only [all_eq_true, Bool.and_eq_true, beq_iff_eq, Bool.or_eq_true, Bool.not_eq_true'] at hall
  exact fun c hc =>
    ⟨(hall c hc).1, fun d hd hle => ((hall c hc).2 d hd).resolve_left (by simp [hle])⟩

theorem escapeChar_plain {c : Char} (h : c ∉ special) :
    escapeChar c = [c] ∧ c ≠ '"' ∧ c ≠ '\\' := by
  have hcontrol : ¬ c.toNat < 32 := fun hlt =>
    h (mem_append_left _ (mem_map.mpr ⟨c.toNat, mem_range.mpr hlt, Char.ofNat_toNat c⟩))
  have hne : ∀ d ∈ special, c ≠ d := fun d hd heq => h (heq ▸ hd)
  simp [escapeChar, hcontrol,
    hne '"' (by decide), hne '\\' (by decide), hne '\x08' (by decide), hne '\x0c' (by decide), hne '\n' (by decide), hne '\r' (by decide), hne '\t' (by decide), hne '<' (by decide), hne '>' (by decide),
    hne '&' (by decide), hne '\u2028' (by decide), hne '\u2029' (by decide)]

theorem escapeChar_append {c d : Char} {x y : List Char}
    (h : escapeChar c ++ x = escapeChar d ++ y) :
    c = d ∧ x = y := by
  by_cases hc : c ∈ special <;> by_cases hd : d ∈ special
  · have hcd : c = d := by
      rcases prefix_or_prefix_of_prefix (prefix_append _ x) (h ▸ prefix_append _ y) with hle | hle
      · exact (escapeChar_special c hc).2 d hd ( isPrefixOf_iff_prefix.mpr hle)
      · exact ((escapeChar_special d hd).2 c hc ( isPrefixOf_iff_prefix.mpr hle)).symm
    exact ⟨hcd, append_cancel_left (hcd ▸ h)⟩
  · have hhead := congrArg List.head? h
    rw [List.head?_append, (escapeChar_special c hc).1, (escapeChar_plain hd).1] at hhead
    cases hhead
    exact absurd rfl (escapeChar_plain hd).2.2
  · have hhead := congrArg List.head? h
    rw [List.head?_append, List.head?_append, (escapeChar_special d hd).1,
      (escapeChar_plain hc).1] at hhead
    cases hhead
    exact absurd rfl (escapeChar_plain hc).2.2
  · rw [(escapeChar_plain hc).1, (escapeChar_plain hd).1] at h
    cases h
    exact ⟨rfl, rfl⟩

theorem escapeChar_head (c : Char) : ∃ d t, escapeChar c = d :: t ∧ d ≠ '"' := by
  by_cases hc : c ∈ special
  · obtain ⟨t, ht⟩ := List.head?_eq_some_iff.mp (escapeChar_special c hc).1
    exact ⟨_, t, ht, by decide⟩
  · exact ⟨c, [], (escapeChar_plain hc).1, (escapeChar_plain hc).2.1⟩

theorem flatMap_escape {s t : GoString} (hs : Utf8 s) (ht : Utf8 t) {x y : List Char}
    (h : s.flatMap escape ++ '"' :: x = t.flatMap escape ++ '"' :: y) : s = t ∧ x = y := by
  induction s generalizing t with
  | nil =>
    cases t with
    | nil =>
      cases h
      exact ⟨rfl, rfl⟩
    | cons v =>
      obtain ⟨d, rfl⟩ := ht v mem_cons_self
      obtain ⟨e, tail, hd, hne⟩ := escapeChar_head d
      rw [flatMap_cons, escape, hd] at h
      cases h
      exact absurd rfl hne
  | cons u s ih =>
    obtain ⟨c, rfl⟩ := hs u mem_cons_self
    cases t with
    | nil =>
      obtain ⟨e, tail, hc, hne⟩ := escapeChar_head c
      rw [flatMap_cons, escape, hc] at h
      cases h
      exact absurd rfl hne
    | cons v =>
      obtain ⟨d, rfl⟩ := ht v mem_cons_self
      rw [flatMap_cons, flatMap_cons, append_assoc, append_assoc] at h
      obtain ⟨rfl, hrest⟩ := escapeChar_append h
      obtain ⟨rfl, hxy⟩ := ih (fun w hw => hs w (mem_cons_of_mem _ hw))
        (fun w hw => ht w (mem_cons_of_mem _ hw)) hrest
      exact ⟨rfl, hxy⟩

theorem quote_append {s t : GoString} (hs : Utf8 s) (ht : Utf8 t) {x y : List Char}
    (h : quote s ++ x = quote t ++ y) : s = t ∧ x = y := by
  refine flatMap_escape hs ht ?_
  simpa [quote] using h

theorem rest_injective {ss tt : List GoString} (hs : ∀ s ∈ ss, Utf8 s) (ht : ∀ t ∈ tt, Utf8 t)
    (h : rest ss = rest tt) : ss = tt := by
  induction ss generalizing tt with
  | nil =>
    cases tt with
    | nil => rfl
    | cons => cases h
  | cons s ss ih =>
    cases tt with
    | nil => cases h
    | cons =>
      rw [forall_mem_cons] at hs ht
      obtain ⟨rfl, hrest⟩ := quote_append hs.1 ht.1 (List.cons.inj h).2
      rw [ih hs.2 ht.2 hrest]

theorem marshal_injective {ss tt : List GoString} (hs : ∀ s ∈ ss, Utf8 s) (ht : ∀ t ∈ tt, Utf8 t)
    (h : bytes (marshal ss) = bytes (marshal tt)) : ss = tt := by
  have htext : marshal ss = marshal tt := String.ofList_injective (String.toByteArray_inj.mp h)
  cases ss with
  | nil =>
    cases tt with
    | nil => rfl
    | cons => cases htext
  | cons =>
    cases tt with
    | nil => cases htext
    | cons =>
      refine rest_injective hs ht ?_
      rw [rest, rest]
      exact congrArg (',' :: ·) (List.cons.inj htext).2

theorem utf8_ofText (t : List Char) : Utf8 (ofText t) := by
  intro u hu
  obtain ⟨c, -, rfl⟩ := mem_map.mp hu
  exact ⟨c, rfl⟩

theorem ofText_intText_injective {z w : ℤ} (h : ofText (intText z) = ofText (intText w)) :
    z = w := by
  have htext : intText z = intText w := map_injective_iff.mpr (fun _ _ hc => Rune.char.inj hc) h
  have hread := takeInt_append z ⟨'.', [], rfl, by decide⟩
  rw [htext, takeInt_append w ⟨'.', [], rfl, by decide⟩] at hread
  cases hread
  rfl

def SignedRequest.texts (r : SignedRequest) : List GoString :=
  [r.purpose, r.method, r.path, r.bodyDigest, r.deviceID, r.credentialID, r.challengeID,
    r.nonce, r.requestID]

/-- Signed texts are unambiguous. -/
structure Unambiguous : Prop where
  same : ∀ r : SignedRequest, clientSigningBytes r.purpose r.method r.path r.bodyDigest
    r.deviceID r.credentialID
    ⟨r.challengeID, r.nonce, r.expires⟩ r.requestID = signingBytes r
  requests : ∀ r r' : SignedRequest, (∀ s ∈ r.texts, Utf8 s) → (∀ s ∈ r'.texts, Utf8 s) →
    signingBytes r = signingBytes r' → r = r'
  challenges : ∀ digest nonce expires digest' nonce' expires',
    (∀ s ∈ [digest, nonce, digest', nonce'], Utf8 s) →
    challengeProofBytes digest nonce expires = challengeProofBytes digest' nonce' expires' →
    digest = digest' ∧ nonce = nonce' ∧ expires = expires'
  apart : ∀ r digest nonce expires, signingBytes r ≠ challengeProofBytes digest nonce expires

/-- No two requests or challenges have the same signed text. -/
theorem signedTexts_unambiguous : Unambiguous where
  same _ := rfl
  requests r r' hr hr' h := by
    have hlist := marshal_injective (by simpa [utf8_ofText, SignedRequest.texts] using hr)
      (by simpa [utf8_ofText, SignedRequest.texts] using hr') h
    simp only [List.cons.injEq, and_true, true_and] at hlist
    obtain ⟨h₁, h₂, h₃, h₄, h₅, h₆, h₇, h₈, h₉, hexpires⟩ := hlist
    cases r
    cases r'
    simp only [SignedRequest.mk.injEq]
    exact ⟨h₁, h₂, h₃, h₄, h₅, h₆, h₇, h₈, h₉, ofText_intText_injective hexpires⟩
  challenges digest nonce expires digest' nonce' expires' hvalid h := by
    have hlist := marshal_injective (by simp [utf8_ofText, hvalid])
      (by simp [utf8_ofText, hvalid]) h
    simp only [List.cons.injEq, and_true, true_and] at hlist
    exact ⟨hlist.1, hlist.2.1, ofText_intText_injective hlist.2.2⟩
  apart r digest nonce expires h := by
    have htext := String.ofList_injective (String.toByteArray_inj.mp h)
    obtain ⟨hkind, -⟩ := quote_append (utf8_ofText _) (utf8_ofText _) (List.cons.inj htext).2
    exact absurd hkind (by decide)

end DaxiangVpn.SignedTexts
