/-
# The path of a URL

What a server makes of a URL: the path ends at the first `?` or `#`, and each `%` with
two hexadecimal digits after it is a byte.  What the bytes of a run of these are as text
is up to `decode`, of which all that is asked is that no byte becomes more than one
character (`Decodes`).

A text comes out as it is just when it has none of these characters
(`received_eq_self_iff`).
-/

import Mathlib.Data.List.TakeWhile

namespace ChordInfra
namespace Url

/-! ### Escapes -/

/-- The value of a hexadecimal digit. -/
def hexValue (c : Char) : Option ℕ :=
  if 0x30 ≤ c.toNat ∧ c.toNat ≤ 0x39 then some (c.toNat - 0x30)
  else if 0x61 ≤ c.toNat ∧ c.toNat ≤ 0x66 then some (c.toNat - 0x61 + 10)
  else if 0x41 ≤ c.toNat ∧ c.toNat ≤ 0x46 then some (c.toNat - 0x41 + 10)
  else none

/-- The byte that two hexadecimal digits name. -/
def byteOf (a b : Char) : Option UInt8 :=
  (hexValue a).bind fun x => (hexValue b).map fun y => UInt8.ofNat (16 * x + y)

/-- Somewhere in the text, two hexadecimal digits follow a `%`. -/
def hasEscape : List Char → Bool
  | '%' :: a :: b :: rest => (byteOf a b).isSome || hasEscape (a :: b :: rest)
  | _ :: rest => hasEscape rest
  | [] => false

/-- The text without its escapes, `pending` being the bytes just before it. -/
def unquoteFrom (decode : List UInt8 → List Char) : List UInt8 → List Char → List Char
  | pending, '%' :: a :: b :: rest =>
    match byteOf a b with
    | some x => unquoteFrom decode (pending ++ [x]) rest
    | none => decode pending ++ '%' :: unquoteFrom decode [] (a :: b :: rest)
  | pending, c :: rest => decode pending ++ c :: unquoteFrom decode [] rest
  | pending, [] => decode pending

/-- The text without its escapes. -/
def unquote (decode : List UInt8 → List Char) : List Char → List Char := unquoteFrom decode []

/-- No byte becomes more than one character. -/
def Decodes (decode : List UInt8 → List Char) : Prop :=
  ∀ bytes, (decode bytes).length ≤ bytes.length

theorem hasEscape_cons_of_ne {c : Char} (hc : c ≠ '%') (l : List Char) :
    hasEscape (c :: l) = hasEscape l := by
  rw [hasEscape]
  rintro a b rest ⟨rfl⟩
  exact absurd rfl hc

/-- A part without `%` has no escape at its end. -/
theorem hasEscape_append {l : List Char} (hl : '%' ∉ l) (l' : List Char) :
    hasEscape (l ++ l') = hasEscape l' := by
  induction l with
  | nil => rfl
  | cons c l ih =>
    obtain ⟨hc, hrest⟩ := not_or.1 (List.mem_cons.not.1 hl)
    rw [List.cons_append, hasEscape_cons_of_ne (Ne.symm hc), ih hrest]

/-- Characters that are no part of an escape add none. -/
theorem hasEscape_append_right (l : List Char) {l' : List Char}
    (hl' : ∀ c ∈ l', c ≠ '%' ∧ hexValue c = none) : hasEscape (l ++ l') = hasEscape l := by
  have hbyte : ∀ a b : Char, hexValue a = none ∨ hexValue b = none → byteOf a b = none := by
    intro a b h
    unfold byteOf
    rcases h with h | h <;> simp [h]
  have hpercent : '%' ∉ l' := fun h => (hl' _ h).1 rfl
  have hnone : hasEscape l' = false := by
    have h := hasEscape_append hpercent []
    rwa [List.append_nil] at h
  fun_induction hasEscape l with
  | case1 a b rest ih => rw [List.cons_append, List.cons_append, List.cons_append, hasEscape,
      ← List.cons_append, ← List.cons_append, ih]
  | case2 c rest hne ih =>
    by_cases hc : c = '%'
    · subst hc
      match rest, hne with
      | [], _ =>
        rcases l' with - | ⟨a, - | ⟨b, l'⟩⟩
        · rfl
        · exact ih
        · rw [List.cons_append, List.nil_append, hasEscape, hbyte a b (.inl (hl' a (by simp)).2)]
          simpa [hasEscape] using hnone
      | [a], _ =>
        rcases l' with - | ⟨b, l'⟩
        · rfl
        · rw [List.cons_append, List.cons_append, List.nil_append, hasEscape,
            hbyte a b (.inr (hl' b (by simp)).2)]
          simpa using ih
      | a :: b :: rest, hne => exact absurd rfl (hne a b rest rfl)
    · rw [List.cons_append, hasEscape_cons_of_ne hc, ih]
  | case3 => exact hnone

section Unquote

variable {decode : List UInt8 → List Char}

theorem unquoteFrom_cons_of_ne {c : Char} (hc : c ≠ '%') (pending : List UInt8) (l : List Char) :
    unquoteFrom decode pending (c :: l) = decode pending ++ c :: unquoteFrom decode [] l := by
  rw [unquoteFrom]
  rintro a b rest ⟨rfl⟩
  exact absurd rfl hc

variable (hdecode : Decodes decode)

include hdecode

theorem Decodes.nil : decode [] = [] := List.length_eq_zero_iff.1 (Nat.le_zero.1 (hdecode []))

/-- An escape takes the place of three characters. -/
theorem length_unquoteFrom (pending : List UInt8) (l : List Char) :
    (unquoteFrom decode pending l).length ≤ pending.length + l.length ∧
      (hasEscape l = true → (unquoteFrom decode pending l).length < pending.length + l.length) := by
  fun_induction unquoteFrom decode pending l with
  | case1 pending a b rest x hx ih =>
    have hlen := ih.1
    simp only [List.length_append, List.length_cons, List.length_nil] at hlen ⊢
    exact ⟨by omega, fun _ => by omega⟩
  | case2 pending a b rest hx ih =>
    have hpending := hdecode pending
    simp only [List.length_append, List.length_cons, List.length_nil] at ih ⊢
    refine ⟨by omega, fun h => ?_⟩
    rw [hasEscape, hx, Option.isSome_none, Bool.false_or] at h
    have hlt := ih.2 h
    omega
  | case3 pending c rest hne ih =>
    have hpending := hdecode pending
    simp only [List.length_append, List.length_cons, List.length_nil] at ih ⊢
    refine ⟨by omega, fun h => ?_⟩
    rw [hasEscape] at h
    · have hlt := ih.2 h
      omega
    · exact hne
  | case4 pending => exact ⟨by simpa using hdecode pending, fun h => (by cases h)⟩

/-- A part without `%` comes out as it is. -/
theorem unquote_append {l : List Char} (hl : '%' ∉ l) (l' : List Char) :
    unquote decode (l ++ l') = l ++ unquote decode l' := by
  induction l with
  | nil => rfl
  | cons c l ih =>
    obtain ⟨hc, hrest⟩ := not_or.1 (List.mem_cons.not.1 hl)
    have hcons : unquoteFrom decode [] (c :: (l ++ l')) = _ :=
      unquoteFrom_cons_of_ne (Ne.symm hc) [] (l ++ l')
    rw [hdecode.nil, List.nil_append] at hcons
    exact hcons.trans (congrArg (c :: ·) (ih hrest))

theorem unquote_of_hasEscape_false {l : List Char} (h : hasEscape l = false) :
    unquote decode l = l := by
  unfold unquote
  fun_induction hasEscape l with
  | case1 a b rest ih =>
    obtain ⟨hbyte, hrest⟩ := Bool.or_eq_false_iff.1 h
    have hnone : byteOf a b = none := by simpa using hbyte
    rw [unquoteFrom, hnone]
    simp only [hdecode.nil, List.nil_append, ih hrest]
  | case2 c rest hne ih =>
    rw [unquoteFrom]
    · simp only [hdecode.nil, List.nil_append, ih h]
    · exact hne
  | case3 => exact hdecode.nil

/-- **What is received is what was sent** just when there is no escape in it. -/
theorem unquote_eq_self_iff {l : List Char} : unquote decode l = l ↔ hasEscape l = false := by
  refine ⟨fun h => ?_, unquote_of_hasEscape_false hdecode⟩
  by_contra hescape
  have hlt := (length_unquoteFrom hdecode [] l).2 (by simpa using hescape)
  rw [show unquoteFrom decode [] l = l from h, List.length_nil, Nat.zero_add] at hlt
  exact Nat.lt_irrefl _ hlt

end Unquote

/-! ### Paths -/

/-- Where the path of a URL ends. -/
def endsPath (c : Char) : Bool := c = '?' || c = '#'

/-- The path of a URL that is a path with what follows it. -/
def pathOf (url : List Char) : List Char := url.takeWhile fun c => !endsPath c

/-- The path as the server sees it. -/
def received (decode : List UInt8 → List Char) (url : List Char) : List Char :=
  unquote decode (pathOf url)

/-- Neither the end of a path nor an escape is in the text. -/
def Literal (l : List Char) : Prop := (∀ c ∈ l, endsPath c = false) ∧ hasEscape l = false

/-- A part that is written as it is adds nothing to what follows it. -/
theorem literal_append {l : List Char} (hl : ∀ c ∈ l, endsPath c = false ∧ c ≠ '%')
    {l' : List Char} : Literal (l ++ l') ↔ Literal l' := by
  unfold Literal
  rw [hasEscape_append fun h => (hl _ h).2 rfl]
  refine and_congr_left' ⟨fun h c hc => h c (List.mem_append_right _ hc), fun h c hc => ?_⟩
  exact (List.mem_append.1 hc).elim (fun hc => (hl c hc).1) (h c)

/-- And what is no part of an escape adds nothing to what comes before it. -/
theorem Literal.append {l l' : List Char} (h : Literal l)
    (hl' : ∀ c ∈ l', endsPath c = false ∧ c ≠ '%' ∧ hexValue c = none) : Literal (l ++ l') := by
  refine ⟨fun c hc => ?_, ?_⟩
  · exact (List.mem_append.1 hc).elim (h.1 c) fun hc => (hl' c hc).1
  · rw [hasEscape_append_right l fun c hc => (hl' c hc).2]
    exact h.2

theorem pathOf_eq_self_iff {l : List Char} : pathOf l = l ↔ ∀ c ∈ l, endsPath c = false := by
  unfold pathOf
  rw [List.takeWhile_eq_self_iff]
  simp only [Bool.not_eq_eq_eq_not, Bool.not_true]

section Received

variable {decode : List UInt8 → List Char} (hdecode : Decodes decode)

include hdecode

theorem length_received (l : List Char) : (received decode l).length ≤ (pathOf l).length := by
  have hlen := (length_unquoteFrom hdecode [] (pathOf l)).1
  rwa [List.length_nil, Nat.zero_add] at hlen

/-- The part of a URL that is written as it is. -/
theorem received_append {l : List Char} (hl : ∀ c ∈ l, endsPath c = false ∧ c ≠ '%')
    (l' : List Char) : received decode (l ++ l') = l ++ received decode l' := by
  have hpath : pathOf (l ++ l') = l ++ pathOf l' := by
    unfold pathOf
    refine List.takeWhile_append_of_pos fun c hc => ?_
    rw [(hl c hc).1]
    rfl
  unfold received
  rw [hpath, unquote_append hdecode fun h => (hl _ h).2 rfl]

/-- **A text in a URL reaches the server as it is** just when it ends no path and has no
escape. -/
theorem received_eq_self_iff {l : List Char} : received decode l = l ↔ Literal l := by
  constructor
  · intro h
    have hpath : pathOf l = l := by
      have hpre : pathOf l <+: l := List.takeWhile_prefix _
      refine hpre.eq_of_length_le ?_
      calc l.length = (received decode l).length := by rw [h]
        _ ≤ (pathOf l).length := length_received hdecode l
    unfold received at h
    rw [hpath] at h
    exact ⟨pathOf_eq_self_iff.1 hpath, (unquote_eq_self_iff hdecode).1 h⟩
  · rintro ⟨hends, hescape⟩
    unfold received
    rw [pathOf_eq_self_iff.2 hends]
    exact (unquote_eq_self_iff hdecode).2 hescape

end Received

end Url
end ChordInfra
