import Mathlib.Data.List.Basic
import Mathlib.Tactic.Basic

/-!
# Self-delimiting encodings

An encoding of values as strings is self-delimiting on a set of values when the
code word of a value can be read off the front of any string: if two strings
start with the code words of two values and are equal, the values are the same
and so is the rest.  A concatenation of self-delimiting fields is then parsed in
one way only, and so is injective (`SelfDelimiting.injective`).

Encodings are built from two rules.  `of_length` covers fields of a fixed
length.  `bind` covers everything with a header: the header is read first, and
what it says may decide how the body is read.  Tagged unions, length-prefixed
strings (`lengthPrefixed`) and counted lists (`counted`) are all headers with a
body.
-/

namespace LatchContracts.Lib

variable {α β γ κ : Type}

/-- On the valid values, code words can be read off the front of a string. -/
def SelfDelimiting (valid : α → Prop) (enc : α → List β) : Prop :=
  ∀ ⦃a b : α⦄ ⦃r r' : List β⦄, valid a → valid b → enc a ++ r = enc b ++ r' → a = b ∧ r = r'

namespace SelfDelimiting

variable {valid : α → Prop} {enc : α → List β}

theorem injective (h : SelfDelimiting valid enc) {a b : α} (ha : valid a) (hb : valid b)
    (heq : enc a = enc b) : a = b := by
  have happend : enc a ++ [] = enc b ++ [] := by rw [heq]
  exact (h ha hb happend).1

/-- Code words of one length. -/
theorem of_length {n : ℕ} (hlength : ∀ a, valid a → (enc a).length = n)
    (hinjective : ∀ a b, valid a → valid b → enc a = enc b → a = b) :
    SelfDelimiting valid enc := by
  intro a b r r' ha hb heq
  have hsame : (enc a).length = (enc b).length := by rw [hlength a ha, hlength b hb]
  obtain ⟨henc, hrest⟩ := List.append_inj heq hsame
  exact ⟨hinjective a b ha hb henc, hrest⟩

/-- A header, and a body that is read with the header known. -/
theorem bind {head : κ → List β} {validHead : κ → Prop} (hhead : SelfDelimiting validHead head)
    {key : α → κ} (hkey : ∀ a, valid a → validHead (key a))
    (hbody : ∀ k, SelfDelimiting (fun a => valid a ∧ key a = k) enc) :
    SelfDelimiting valid (fun a => head (key a) ++ enc a) := by
  intro a b r r' ha hb heq
  rw [List.append_assoc, List.append_assoc] at heq
  obtain ⟨hkeys, hrest⟩ := hhead (hkey a ha) (hkey b hb) heq
  exact hbody (key a) ⟨ha, rfl⟩ ⟨hb, hkeys.symm⟩ hrest

/-- Encoding through a map that loses nothing. -/
theorem comap (h : SelfDelimiting valid enc) {f : γ → α} {valid' : γ → Prop}
    (hvalid : ∀ c, valid' c → valid (f c))
    (hinjective : ∀ c d, valid' c → valid' d → f c = f d → c = d) :
    SelfDelimiting valid' (fun c => enc (f c)) := by
  intro c d r r' hc hd heq
  obtain ⟨hf, hrest⟩ := h (hvalid c hc) (hvalid d hd) heq
  exact ⟨hinjective c d hc hd hf, hrest⟩

/-- The concatenation of a known number of code words. -/
theorem flatMap (h : SelfDelimiting valid enc) (n : ℕ) :
    SelfDelimiting (fun l : List α => (∀ a ∈ l, valid a) ∧ l.length = n)
      (fun l => l.flatMap enc) := by
  induction n with
  | zero =>
    intro l l' r r' hl hl' heq
    obtain rfl := List.length_eq_zero_iff.mp hl.2
    obtain rfl := List.length_eq_zero_iff.mp hl'.2
    exact ⟨rfl, heq⟩
  | succ n ih =>
    intro l l' r r' hl hl' heq
    obtain ⟨a, rest, rfl⟩ := List.exists_cons_of_length_eq_add_one hl.2
    obtain ⟨b, rest', rfl⟩ := List.exists_cons_of_length_eq_add_one hl'.2
    obtain ⟨ha, hrest⟩ := List.forall_mem_cons.mp hl.1
    obtain ⟨hb, hrest'⟩ := List.forall_mem_cons.mp hl'.1
    simp only [List.flatMap_cons, List.append_assoc] at heq
    obtain ⟨rfl, htail⟩ := h ha hb heq
    obtain ⟨rfl, hr⟩ := ih ⟨hrest, Nat.succ.inj hl.2⟩ ⟨hrest', Nat.succ.inj hl'.2⟩ htail
    exact ⟨rfl, hr⟩

/-- A string after its length. -/
theorem lengthPrefixed {count : ℕ → List β} {bound : ℕ}
    (hcount : SelfDelimiting (fun n => n < bound) count) :
    SelfDelimiting (fun l : List β => l.length < bound) (fun l => count l.length ++ l) := by
  apply hcount.bind (fun l hl => hl)
  intro n
  exact of_length (fun l hl => hl.2) (fun l l' _ _ heq => heq)

/-- A list of code words after its length. -/
theorem counted (h : SelfDelimiting valid enc) {count : ℕ → List β} {bound : ℕ}
    (hcount : SelfDelimiting (fun n => n < bound) count) :
    SelfDelimiting (fun l : List α => (∀ a ∈ l, valid a) ∧ l.length < bound)
      (fun l => count l.length ++ l.flatMap enc) := by
  apply hcount.bind (fun l hl => hl.2)
  intro n l l' r r' hl hl' heq
  exact h.flatMap n ⟨hl.1.1, hl.2⟩ ⟨hl'.1.1, hl'.2⟩ heq

end SelfDelimiting

end LatchContracts.Lib
