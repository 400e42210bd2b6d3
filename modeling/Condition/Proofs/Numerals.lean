/-
Numerals as text. The text of an integer is digits, behind a minus sign if the integer is
negative (`render_cases`). That is one way to write the integer (`Integer.Numeral`), and all of
them are read as it (`Numeral.readDecimal?_eq`).
-/
import Condition.Integer

namespace Condition

theorem isDigit_of_mem_numeral {n : Nat} : ∀ c ∈ Nat.toDigits 10 n, c.isDigit = true :=
  fun _ hc => Nat.isDigit_of_mem_toDigits (by omega) (by omega) hc

theorem render_cases (i : Int64) :
    ∃ sign n, (Integer.render i).toList = sign ++ Nat.toDigits 10 n ∧
      (sign = [] ∧ i.toInt = n ∨ sign = ['-'] ∧ i.toInt = -n) := by
  unfold Integer.render
  cases i.toInt with
  | ofNat n =>
    exact ⟨[], n, by simp [toString, Int.repr, Nat.repr_eq_ofList_toDigits], .inl ⟨rfl, rfl⟩⟩
  | negSucc n =>
    exact ⟨['-'], n + 1, by simp [toString, Int.repr, Nat.repr_eq_ofList_toDigits],
      .inr ⟨rfl, rfl⟩⟩

namespace Integer

theorem digit?_of_isDigit {c : Char} (h : c.isDigit = true) :
    digit? 10 c = some (c.toNat - '0'.toNat) := by
  have hlt : c.toNat - '0'.toNat < 10 := by
    simp only [Char.isDigit, Bool.and_eq_true, decide_eq_true_eq, UInt32.le_iff_toNat_le] at h
    have hnine : c.toNat ≤ 57 := h.2
    have hzero : '0'.toNat = 48 := rfl
    omega
  simp only [digit?, h, if_true, Option.filter, hlt, decide_true]

theorem digits?_of_isDigit {cs : List Char} (h : ∀ c ∈ cs, c.isDigit = true) (high : Nat) :
    digits? 10 high cs = some (Nat.ofDigitChars 10 cs high) := by
  induction cs generalizing high with
  | nil => rfl
  | cons c cs ih =>
    obtain ⟨hc, hcs⟩ := List.forall_mem_cons.1 h
    rw [digits?, digit?_of_isDigit hc, Option.bind_some, ih hcs, Nat.ofDigitChars_cons,
      Nat.mul_comm]

theorem natural?_of_isDigit {cs : List Char} (hne : cs ≠ []) (h : ∀ c ∈ cs, c.isDigit = true) :
    natural? 10 cs = some (Nat.ofDigitChars 10 cs 0) := by
  rw [← digits?_of_isDigit h]
  cases cs with
  | nil => exact absurd rfl hne
  | cons c cs => rfl

theorem signed?_of_isDigit {cs : List Char} (hne : cs ≠ []) (h : ∀ c ∈ cs, c.isDigit = true) :
    signed? 10 cs = some (Nat.ofDigitChars 10 cs 0 : Int) := by
  have hsigned : signed? 10 cs = (natural? 10 cs).map Int.ofNat := by
    unfold signed?
    split
    · exact absurd (h '+' (by simp)) (by decide)
    · exact absurd (h '-' (by simp)) (by decide)
    · rfl
  rw [hsigned, natural?_of_isDigit hne h]
  rfl

/-- The text is one digit or more, and writes the number. -/
structure Digits (cs : List Char) (n : Nat) : Prop where
  ne_nil : cs ≠ []
  isDigit : ∀ c ∈ cs, c.isDigit = true
  value : Nat.ofDigitChars 10 cs 0 = n

instance (cs : List Char) (n : Nat) : Decidable (Digits cs n) :=
  decidable_of_iff (cs ≠ [] ∧ cs.all Char.isDigit = true ∧ Nat.ofDigitChars 10 cs 0 = n)
    ⟨fun ⟨hne, hall, hvalue⟩ => ⟨hne, List.all_eq_true.1 hall, hvalue⟩,
      fun h => ⟨h.ne_nil, List.all_eq_true.2 h.isDigit, h.value⟩⟩

/-- The text writes the integer in decimal, with or without a sign and with any leading zeros. -/
inductive Numeral : List Char → Int64 → Prop
  | plain {ds n} {i : Int64} : Digits ds n → i.toInt = n → Numeral ds i
  | plus {ds n} {i : Int64} : Digits ds n → i.toInt = n → Numeral ('+' :: ds) i
  | minus {ds n} {i : Int64} : Digits ds n → i.toInt = -n → Numeral ('-' :: ds) i

theorem Numeral.signed?_eq {cs : List Char} {i : Int64} (h : Numeral cs i) :
    signed? 10 cs = some i.toInt := by
  cases h with
  | plain hds hi => rw [signed?_of_isDigit hds.ne_nil hds.isDigit, hds.value, hi]
  | plus hds hi =>
    rw [signed?, natural?_of_isDigit hds.ne_nil hds.isDigit, hds.value, hi]
    rfl
  | minus hds hi =>
    rw [signed?, natural?_of_isDigit hds.ne_nil hds.isDigit, hds.value, hi]
    rfl

/-- What writes an integer is read as the integer. -/
theorem Numeral.readDecimal?_eq {cs : List Char} {i : Int64} (h : Numeral cs i) :
    readDecimal? (String.ofList cs) = some i := by
  rw [readDecimal?, read?, String.toList_ofList, h.signed?_eq, Option.bind_some,
    fit?_eq_some_iff]

theorem Numeral.mem {cs : List Char} {i : Int64} (h : Numeral cs i) :
    ∀ c ∈ cs, c.isDigit = true ∨ c = '+' ∨ c = '-' := by
  cases h with
  | plain hds => exact fun c hc => .inl (hds.isDigit c hc)
  | plus hds =>
    exact List.forall_mem_cons.2 ⟨.inr (.inl rfl), fun c hc => .inl (hds.isDigit c hc)⟩
  | minus hds =>
    exact List.forall_mem_cons.2 ⟨.inr (.inr rfl), fun c hc => .inl (hds.isDigit c hc)⟩

theorem numeral_render (i : Int64) : Numeral (render i).toList i := by
  obtain ⟨sign, n, htext, hsign⟩ := render_cases i
  have hdigits : Digits (Nat.toDigits 10 n) n :=
    ⟨Nat.toDigits_ne_nil, isDigit_of_mem_numeral, Nat.ofDigitChars_ten_toDigits⟩
  rw [htext]
  rcases hsign with ⟨rfl, hi⟩ | ⟨rfl, hi⟩
  · exact .plain hdigits hi
  · exact .minus hdigits hi

theorem readDecimal?_render (i : Int64) : readDecimal? (render i) = some i := by
  simpa using (numeral_render i).readDecimal?_eq

end Integer
end Condition
