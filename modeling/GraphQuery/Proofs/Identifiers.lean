import GraphQuery.Text.Safe
import GraphQuery.Uuid
import Mathlib.Data.List.Basic

/-!
# GraphQuery.Proofs.Identifiers — identifiers and names as text

1. **Digits**: a number below a power of sixteen is made of its digits.
2. **Uuids** that are written alike are the same.
3. **Safe names**: what is dropped, is dropped wherever it stands.
4. **Ends** of names tell many of them apart.
-/

namespace GraphQuery

/-! ## Digits -/

/-- Numbers with the same last digits are the same but for multiples of a power. -/
theorem mod_pow_eq_of_digits_eq {n m : Nat} (k : Nat)
    (h : ∀ i < k, n / Nat.pow 16 i % 16 = m / Nat.pow 16 i % 16) :
    n % Nat.pow 16 k = m % Nat.pow 16 k := by
  induction k with
  | zero => simp [Nat.mod_one]
  | succ k ih =>
    have hlow := ih fun i hi => h i (by omega)
    have hsucc (x : Nat) : x % Nat.pow 16 (k + 1) =
        x % Nat.pow 16 k + Nat.pow 16 k * (x / Nat.pow 16 k % 16) := Nat.mod_pow_succ
    rw [hsucc, hsucc, hlow, h k (by omega)]

/-- Different digits have different characters. -/
theorem hexDigit_inj {n m : Nat} (hn : n < 16) (hm : m < 16)
    (h : Json.hexDigit n = Json.hexDigit m) : n = m := by
  have hall : ∀ i < 16, ∀ j < 16, Json.hexDigit i = Json.hexDigit j → i = j := by decide
  exact hall n hn m hm h

theorem hexDigit_ne_dash {n : Nat} (h : n < 16) : Json.hexDigit n ≠ '-' := by
  have hall : ∀ i < 16, Json.hexDigit i ≠ '-' := by decide
  exact hall n h

namespace Uuid

/-! ## Uuids -/

/-- Uuids with the same digits are the same. -/
theorem digits_inj {u v : Uuid} (h : u.digits = v.digits) : u = v := by
  have hdigit : ∀ i < 32,
      u.bits.toNat / Nat.pow 16 i % 16 = v.bits.toNat / Nat.pow 16 i % 16 := by
    intro i hi
    -- the digit of weight `16 ^ i` stands `31 - i` places from the front
    have hplace := congrArg (fun ds : List Char => ds[31 - i]?) h
    have hlt : 31 - i < 32 := by omega
    simp only [digits, List.getElem?_map, List.getElem?_range hlt, Option.map_some,
      Option.some.injEq] at hplace
    have hback : 31 - (31 - i) = i := by omega
    rw [hback] at hplace
    exact hexDigit_inj (Nat.mod_lt _ (by omega)) (Nat.mod_lt _ (by omega)) hplace
  have hmod := mod_pow_eq_of_digits_eq 32 hdigit
  -- thirty-two digits are all there are
  have hpow : Nat.pow 16 32 = 2 ^ 128 := by decide
  rw [hpow, Nat.mod_eq_of_lt u.bits.isLt, Nat.mod_eq_of_lt v.bits.isLt] at hmod
  cases u
  cases v
  simpa [BitVec.toNat_inj] using hmod

/-- Without its dashes, the text of a uuid is its digits. -/
theorem filter_text (u : Uuid) : u.text.toList.filter (· != '-') = u.digits := by
  have hkeep : ∀ c ∈ u.digits, (c != '-') = true := by
    intro c hc
    rcases List.mem_map.mp hc with ⟨i, -, rfl⟩
    simpa using hexDigit_ne_dash (Nat.mod_lt _ (by omega))
  have hlength : u.digits.length = 32 := by simp [digits]
  -- no group of digits contains a dash
  have hpart (start size : Nat) : ((u.digits.drop start).take size).filter (· != '-') =
      (u.digits.drop start).take size := by
    apply List.filter_eq_self.mpr
    intro c hc
    exact hkeep c (List.mem_of_mem_drop (List.mem_of_mem_take hc))
  -- neighbouring groups make one
  have hjoin (start size : Nat) : (u.digits.drop start).take size ++
      u.digits.drop (start + size) = u.digits.drop start := by
    rw [← List.drop_drop, List.take_append_drop]
  have hlast : (u.digits.drop 20).take 12 = u.digits.drop 20 :=
    List.take_of_length_le (by simp [hlength])
  have hgroups : u.text.toList.filter (· != '-') = (u.digits.drop 0).take 8 ++
      ((u.digits.drop 8).take 4 ++ ((u.digits.drop 12).take 4 ++ ((u.digits.drop 16).take 4 ++
        (u.digits.drop 20).take 12))) := by
    unfold text
    simp only [String.toList_ofList, List.intercalate_cons_cons, List.intercalate_singleton,
      List.filter_append, hpart]
    simp
  rw [hgroups, hlast, hjoin 16 4, hjoin 12 4, hjoin 8 4, hjoin 0 8, List.drop_zero]

/-- Uuids with the same text are the same. -/
theorem text_inj {u v : Uuid} (h : u.text = v.text) : u = v := by
  apply digits_inj
  rw [← filter_text, ← filter_text, h]

end Uuid

namespace Text

/-! ## Safe names -/

theorem safe_append (a b : String) : safe (a ++ b) = safe a ++ safe b := by
  simp [safe]

/-- What is safe stays so. -/
theorem safe_safe (s : String) : safe (safe s) = safe s := by
  simp [safe]

/-- A text of safe characters loses nothing. -/
theorem safe_eq_self {s : String} (h : ∀ c ∈ s.toList, isSafe c = true) : safe s = s := by
  rw [safe, List.filter_eq_self.mpr h, String.ofList_toList]

theorem isSafe_of_mem_safe {s : String} {c : Char} (h : c ∈ (safe s).toList) : isSafe c = true := by
  rw [safe, String.toList_ofList, List.mem_filter] at h
  exact h.2

/-- A safe text has no character that is not safe. -/
theorem ne_of_mem_safe {q : Char} (hq : isSafe q = false) {s : String} :
    ∀ c ∈ (safe s).toList, c ≠ q := by
  rintro c hc rfl
  rw [isSafe_of_mem_safe hc] at hq
  cases hq

/-- A number is written in decimal digits. -/
theorem isDigit_of_mem_toString {n : Nat} {c : Char} (h : c ∈ (toString n).toList) :
    c.isDigit = true := by
  rw [Nat.toString_eq_repr, Nat.toList_repr] at h
  exact Nat.isDigit_of_mem_toDigits (by decide) (by decide) h

/-- Numbers are safe as they are written. -/
theorem safe_toString (n : Nat) : safe (toString n) = toString n := by
  apply safe_eq_self
  intro c hc
  simp [isSafe, Char.isAlphanum, isDigit_of_mem_toString hc]

/-! ## Ends -/

/-- A name whose last character is one of those given. -/
def EndsIn (p : Char → Bool) (s : String) : Prop := ∃ c, s.toList.getLast? = some c ∧ p c = true

/-- How a text ends does not depend on what is before it. -/
theorem EndsIn.append {p : Char → Bool} {s : String} (h : EndsIn p s) (before : String) :
    EndsIn p (before ++ s) := by
  rcases h with ⟨c, hlast, hc⟩
  refine ⟨c, ?_, hc⟩
  rw [String.toList_append, List.getLast?_append, hlast]
  rfl

/-- A text that ends in a narrow class of characters ends in a wider one. -/
theorem EndsIn.mono {p q : Char → Bool} {s : String} (h : EndsIn p s)
    (hpq : ∀ c, p c = true → q c = true) : EndsIn q s := by
  rcases h with ⟨c, hlast, hc⟩
  exact ⟨c, hlast, hpq c hc⟩

/-- Texts that end differently are different. -/
theorem EndsIn.ne {p : Char → Bool} {s t : String} (h : EndsIn p s)
    (ht : t.toList.getLast?.any p = false) : s ≠ t := by
  rintro rfl
  rcases h with ⟨c, hlast, hc⟩
  rw [hlast] at ht
  simp [hc] at ht

/-- A number ends in a digit. -/
theorem endsIn_toString (n : Nat) : EndsIn Char.isDigit (toString n) := by
  have hne : (toString n).toList ≠ [] := by
    rw [Nat.toString_eq_repr, Nat.toList_repr]
    exact Nat.toDigits_ne_nil
  exact ⟨(toString n).toList.getLast hne, List.getLast?_eq_some_getLast hne,
    isDigit_of_mem_toString (List.getLast_mem hne)⟩

/-- Names end where a character stands that is no part of a name. -/
theorem append_inj_of_ends {p : Char → Bool} {a b x y : List Char} {c d : Char}
    (ha : ∀ e ∈ a, p e = true) (hb : ∀ e ∈ b, p e = true) (hc : p c = false) (hd : p d = false)
    (h : a ++ c :: x = b ++ d :: y) : a = b ∧ c :: x = d :: y := by
  rcases List.append_eq_append_iff.mp h with ⟨between, rfl, htail⟩ | ⟨between, rfl, htail⟩
  · cases between with
    | nil => exact ⟨by simp, htail⟩
    | cons first between =>
      -- the longer name would contain the character that ends the shorter one
      rcases List.cons_eq_cons.mp htail with ⟨rfl, -⟩
      rw [hb c (by simp)] at hc
      cases hc
  · cases between with
    | nil => exact ⟨by simp, htail.symm⟩
    | cons first between =>
      rcases List.cons_eq_cons.mp htail with ⟨rfl, -⟩
      rw [ha d (by simp)] at hd
      cases hd

/-- A name that ends in a number tells both, if no digit stands before the number. -/
theorem append_toString_inj {a b : String} {n m : Nat} (ha : EndsIn (fun c => !c.isDigit) a)
    (hb : EndsIn (fun c => !c.isDigit) b) (h : a ++ toString n = b ++ toString m) :
    a = b ∧ n = m := by
  rcases ha with ⟨c, hlast, hc⟩
  rcases hb with ⟨d, hlast', hd⟩
  rcases List.getLast?_eq_some_iff.mp hlast with ⟨before, hbefore⟩
  rcases List.getLast?_eq_some_iff.mp hlast' with ⟨before', hbefore'⟩
  have hdigits (k : Nat) : ∀ e ∈ (toString k).toList.reverse, e.isDigit = true := fun e he =>
    isDigit_of_mem_toString (List.mem_reverse.mp he)
  -- read from behind, the numbers end where the first other character stands
  have hreverse : (toString n).toList.reverse ++ c :: before.reverse =
      (toString m).toList.reverse ++ d :: before'.reverse := by
    have hchars := congrArg (fun s => s.toList.reverse) h
    simpa [hbefore, hbefore'] using hchars
  obtain ⟨hnumbers, hnames⟩ := append_inj_of_ends (hdigits n) (hdigits m) (by simpa using hc)
    (by simpa using hd) hreverse
  constructor
  · rw [← String.toList_inj, hbefore, hbefore']
    simpa using congrArg List.reverse hnames
  · have hvalue := congrArg (fun ds => Nat.ofDigitChars 10 ds.reverse 0) hnumbers
    simpa using hvalue

end Text

end GraphQuery
