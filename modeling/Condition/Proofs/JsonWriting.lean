/-
What is written in JSON is read back as what it was.

A text writes a value if the reader takes all of it and answers with the value, whatever
follows that cannot go on with a number (`Writes`). Strings and numerals write themselves,
and an object writes its fields if each of their texts writes its value; how far it is
indented does not matter (`writes_object`).
-/
import Condition.Json.Reader
import Condition.Json.Writer
import Condition.Proofs.Numerals
import Mathlib.Tactic.IntervalCases

namespace Condition

/-! ## Numerals -/

theorem head?_toDigits_ne {n : Nat} (h : 0 < n) : (Nat.toDigits 10 n).head? ≠ some '0' := by
  induction n using Nat.strongRecOn with
  | _ n ih =>
  by_cases hn : n < 10
  · rw [Nat.toDigits_of_lt_base hn]
    clear ih
    interval_cases n <;> decide
  · rw [Nat.toDigits_of_base_le (by omega) (by omega)]
    have hhead := ih (n / 10) (by omega) (by omega)
    obtain ⟨d, ds, hd⟩ := List.exists_cons_of_ne_nil (Nat.toDigits_ne_nil (n := n / 10) (b := 10))
    rw [hd] at hhead ⊢
    exact hhead

namespace Json

/-! ## Strings -/

theorem digit?_hexDigit : ∀ d < 16, Integer.digit? 16 (hexDigit d) = some d := by decide

theorem digits?_control {n : Nat} (h : n < 0x20) :
    Integer.digits? 16 0 ['0', '0', hexDigit (n / 16), hexDigit (n % 16)] = some n := by
  have hzero : Integer.digit? 16 '0' = some 0 := by decide
  have hhigh := digit?_hexDigit (n / 16) (by omega)
  have hlow := digit?_hexDigit (n % 16) (by omega)
  simp only [Integer.digits?, hzero, hhigh, hlow, Option.bind_some, Option.some.injEq]
  omega

theorem readString_writeChar (c : Char) (acc cs : List Char) :
    readString ⟨some acc, none⟩ (writeChar c ++ cs) = readString ⟨some (c :: acc), none⟩ cs := by
  unfold writeChar
  split
  · rfl
  · rfl
  · rfl
  · rfl
  · rfl
  · rfl
  · rfl
  next hquote hslash _ _ _ _ _ =>
  split
  · next hc =>
    have hunit : Partial.pushUnit ⟨some acc, none⟩ c.toNat = ⟨some (c :: acc), none⟩ := by
      have hlow : ¬ 0xD800 ≤ c.toNat := by omega
      have hhigh : ¬ 0xDC00 ≤ c.toNat := by omega
      simp [Partial.pushUnit, Partial.push, Partial.settle, hlow, hhigh]
    simp only [List.cons_append, List.nil_append, readString, digits?_control hc, hunit]
  · next hc =>
    rw [List.singleton_append, readString.eq_def]
    split
    · contradiction
    · next heq => exact absurd (List.cons.inj heq).1 hquote
    · next heq => exact absurd (List.cons.inj heq).1 hslash
    · next heq => exact absurd (List.cons.inj heq).1 hslash
    · next heq =>
      obtain ⟨rfl, rfl⟩ := List.cons.inj heq
      simp [hc, Partial.push, Partial.settle]

theorem readString_quoted (text acc rest : List Char) :
    readString ⟨some acc, none⟩ (text.flatMap writeChar ++ '"' :: rest) =
      some (some (String.ofList (acc.reverse ++ text)), rest) := by
  induction text generalizing acc with
  | nil => simp [readString, Partial.finish, Partial.settle]
  | cons c text ih =>
    rw [List.flatMap_cons, List.append_assoc, readString_writeChar, ih]
    simp

theorem toList_quote (text : String) :
    (quote text).toList = '"' :: (text.toList.flatMap writeChar ++ ['"']) := by
  simp [quote]

theorem readString_quote (text : String) (rest : List Char) :
    readString .empty (text.toList.flatMap writeChar ++ '"' :: rest) = some (some text, rest) := by
  rw [Partial.empty, readString_quoted]
  simp

/-! ## Values -/

/-- The text cannot go on with a number. -/
def Ends (rest : List Char) : Prop := ∀ c ∈ rest.head?, c = ',' ∨ c = '\n'

/-- The reader takes the text and answers with the value. -/
def Writes (text : List Char) (v : Value) : Prop :=
  ∀ n rest, text.length < n → Ends rest → readValue n (text ++ rest) = some (v, rest)

theorem skipBlanks_of_ne {c : Char} (cs : List Char) (h : isBlank c = false) :
    skipBlanks (c :: cs) = c :: cs := by
  simp [skipBlanks, h]

theorem skipBlanks_append {gap : List Char} (cs : List Char) (h : ∀ c ∈ gap, isBlank c = true) :
    skipBlanks (gap ++ cs) = skipBlanks cs :=
  List.dropWhile_append_of_pos h

theorem readValue_blank (n : Nat) (cs : List Char) :
    readValue n (' ' :: cs) = readValue n cs := by
  cases n with
  | zero => rfl
  | succ n =>
    have hskip : skipBlanks (' ' :: cs) = skipBlanks cs := rfl
    rw [readValue, readValue, hskip]

theorem writes_bool (b : Bool) : Writes (writeBool b).toList (.bool b) := by
  intro n rest hn _
  obtain ⟨n, rfl⟩ : ∃ m, n = m + 1 := ⟨n - 1, by omega⟩
  cases b <;> rfl

theorem writes_quote (text : String) : Writes (quote text).toList (.string (some text)) := by
  intro n rest hn _
  obtain ⟨n, rfl⟩ : ∃ m, n = m + 1 := ⟨n - 1, by omega⟩
  rw [toList_quote, List.cons_append, readValue, skipBlanks_of_ne _ rfl]
  simp [readString_quote]

/-! ## Numbers -/

theorem Ends.cases {rest : List Char} (h : Ends rest) :
    rest = [] ∨ (∃ cs, rest = ',' :: cs) ∨ ∃ cs, rest = '\n' :: cs := by
  cases rest with
  | nil => exact .inl rfl
  | cons c cs =>
    rcases h c rfl with rfl | rfl
    · exact .inr (.inl ⟨cs, rfl⟩)
    · exact .inr (.inr ⟨cs, rfl⟩)

theorem Ends.readDigits {digits rest : List Char} (h : Ends rest) (hne : digits ≠ [])
    (hdigits : ∀ c ∈ digits, c.isDigit = true) :
    readDigits (digits ++ rest) = some (digits, rest) := by
  have hrest : rest.takeWhile Char.isDigit = [] ∧ rest.dropWhile Char.isDigit = rest := by
    rcases h.cases with rfl | ⟨cs, rfl⟩ | ⟨cs, rfl⟩ <;> exact ⟨rfl, rfl⟩
  have htake : (digits ++ rest).takeWhile Char.isDigit = digits := by
    rw [List.takeWhile_append_of_pos hdigits, hrest.1, List.append_nil]
  have hdrop : (digits ++ rest).dropWhile Char.isDigit = rest := by
    rw [List.dropWhile_append_of_pos hdigits, hrest.2]
  rw [Json.readDigits, htake, hdrop]
  split
  · contradiction
  · rfl

theorem Ends.readWhole {rest : List Char} (h : Ends rest) (n : Nat) :
    readWhole (Nat.toDigits 10 n ++ rest) = some (Nat.toDigits 10 n, rest) := by
  have hdigits := h.readDigits Nat.toDigits_ne_nil (isDigit_of_mem_numeral (n := n))
  have hzero : ¬ ((Nat.toDigits 10 n).head? = some '0' ∧ (Nat.toDigits 10 n).length ≠ 1) := by
    rintro ⟨hhead, hlength⟩
    cases n with
    | zero => exact hlength rfl
    | succ n => exact head?_toDigits_ne (by omega) hhead
  simp only [Json.readWhole, hdigits, bind, Option.bind, if_neg hzero]

theorem Ends.readNumber {rest sign : List Char} (h : Ends rest) (n : Nat)
    (hsign : sign = [] ∨ sign = ['-']) :
    readNumber (sign ++ Nat.toDigits 10 n ++ rest) = some (sign ++ Nat.toDigits 10 n, rest) := by
  have hfraction : readFraction rest = some ([], rest) := by
    rcases h.cases with rfl | ⟨cs, rfl⟩ | ⟨cs, rfl⟩ <;> rfl
  have hexponent : readExponent rest = some ([], rest) := by
    rcases h.cases with rfl | ⟨cs, rfl⟩ | ⟨cs, rfl⟩ <;> rfl
  have hwhole := h.readWhole n
  rcases hsign with rfl | rfl
  · obtain ⟨d, ds, hd⟩ := List.exists_cons_of_ne_nil (Nat.toDigits_ne_nil (n := n) (b := 10))
    have hdigit : d.isDigit = true := isDigit_of_mem_numeral (n := n) d (by simp [hd])
    have hne : d ≠ '-' := by rintro rfl; revert hdigit; decide
    rw [hd] at hwhole ⊢
    rw [List.nil_append, Json.readNumber]
    · simp only [hwhole, hfraction, hexponent, bind, Option.bind, pure, List.append_nil,
        List.nil_append]
    · exact fun cs hcs => hne (List.cons.inj hcs).1
  · simp only [Json.readNumber, List.cons_append, List.nil_append, hwhole, hfraction, hexponent,
      bind, Option.bind, pure, List.append_nil]

theorem readValue_number {c : Char} {cs : List Char} (n : Nat) (h : c = '-' ∨ c.isDigit = true) :
    readValue (n + 1) (c :: cs) =
      (readNumber (c :: cs)).map fun (spelling, rest) => (.number spelling, rest) := by
  have hblank : isBlank c = false := by
    refine Bool.eq_false_iff.2 fun hb => ?_
    simp only [isBlank, Bool.or_eq_true, decide_eq_true_eq] at hb
    rcases hb with ((rfl | rfl) | rfl) | rfl <;> revert h <;> decide
  have hne : ∀ d ∈ ['n', 't', 'f', '"', '[', '\x7b'], c ≠ d := by
    rintro d hd rfl
    revert h
    simp only [List.mem_cons, List.not_mem_nil, or_false] at hd
    rcases hd with rfl | rfl | rfl | rfl | rfl | rfl <;> decide
  rw [readValue, skipBlanks_of_ne _ hblank]
  split <;> simp_all

theorem writes_number (i : Int64) :
    Writes (Integer.render i).toList (.number (Integer.render i).toList) := by
  intro n rest hn hrest
  obtain ⟨n, rfl⟩ : ∃ m, n = m + 1 := ⟨n - 1, by omega⟩
  obtain ⟨sign, k, htext, hvalue⟩ := render_cases i
  have hsign : sign = [] ∨ sign = ['-'] := hvalue.imp And.left And.left
  have hread := hrest.readNumber k hsign
  rw [← htext] at hread
  obtain ⟨c, cs, hcs, hc⟩ : ∃ c cs, (Integer.render i).toList = c :: cs ∧
      (c = '-' ∨ c.isDigit = true) := by
    rcases hsign with rfl | rfl
    · obtain ⟨d, ds, hd⟩ := List.exists_cons_of_ne_nil (Nat.toDigits_ne_nil (n := k) (b := 10))
      exact ⟨d, ds, by rw [htext, hd]; rfl, .inr (isDigit_of_mem_numeral (n := k) d (by simp [hd]))⟩
    · exact ⟨'-', _, htext, .inl rfl⟩
  rw [hcs] at hread ⊢
  rw [List.cons_append, readValue_number n hc, ← List.cons_append, hread]
  rfl

/-! ## Objects -/

/-- A field on its line. -/
def fieldLine (indent : List Char) (name text : String) : List Char :=
  indent ++ ' ' :: ' ' :: ((quote name).toList ++ ':' :: ' ' :: text.toList)

/-- The lines of the fields, and the closing brace on its own. -/
def fieldLines (indent : List Char) (fields : List (String × String)) : List Char :=
  [',', '\n'].intercalate (fields.map fun f => fieldLine indent f.1 f.2) ++
    '\n' :: (indent ++ ['\x7d'])

theorem toList_writeObject (level : Nat) {fields : List (String × String)} (h : fields ≠ []) :
    (writeObject level fields).toList =
      '\x7b' :: '\n' :: fieldLines (List.replicate (2 * level) ' ') fields := by
  cases fields with
  | nil => exact absurd rfl h
  | cons f fs =>
    have hline : (fun f : String × String => fieldLine (List.replicate (2 * level) ' ') f.1 f.2) =
        String.toList ∘ fun f => String.ofList (List.replicate (2 * level) ' ') ++ "  " ++
          quote f.1 ++ ": " ++ f.2 := by
      funext f
      simp [fieldLine]
    simp only [writeObject, String.toList_append, String.toList_intercalate, String.toList_ofList,
      fieldLines, hline, List.map_map]
    show ['\x7b', '\n'] ++ [',', '\n'].intercalate _ ++ ['\n'] ++ _ ++ ['\x7d'] = _
    simp only [List.append_assoc, List.cons_append, List.nil_append]

/-- A gap of blanks. -/
def Blank (gap : List Char) : Prop := ∀ c ∈ gap, isBlank c = true

theorem readFields_step (name : String) {gap text rest : List Char} {v : Value} {n : Nat}
    (hgap : Blank gap) (htext : Writes text v) (hn : text.length < n) (hrest : Ends rest) :
    readFields (n + 1) (gap ++ ((quote name).toList ++ ':' :: ' ' :: (text ++ rest))) =
      match skipBlanks rest with
      | '\x7d' :: cs => some ([(some name, v)], cs)
      | ',' :: cs => do
        let (fields, cs) ← readFields n cs
        return ((some name, v) :: fields, cs)
      | _ => none := by
  have hvalue : readValue n (' ' :: (text ++ rest)) = some (v, rest) := by
    rw [readValue_blank, htext n rest hn hrest]
  have hcolon (cs : List Char) : skipBlanks (':' :: cs) = ':' :: cs := rfl
  rw [readFields, skipBlanks_append _ hgap, toList_quote]
  rw [List.cons_append, skipBlanks_of_ne _ rfl]
  simp only [List.append_assoc, List.cons_append, List.nil_append, readString_quote, bind,
    Option.bind, hcolon, hvalue]
  rfl

theorem fieldLines_single (indent : List Char) (f : String × String) :
    fieldLines indent [f] = fieldLine indent f.1 f.2 ++ '\n' :: (indent ++ ['\x7d']) := by
  simp [fieldLines]

theorem fieldLines_cons_cons (indent : List Char) (f g : String × String)
    (fs : List (String × String)) :
    fieldLines indent (f :: g :: fs) =
      fieldLine indent f.1 f.2 ++ ',' :: '\n' :: fieldLines indent (g :: fs) := by
  simp only [fieldLines, List.map_cons, List.intercalate_cons_cons, List.append_assoc,
    List.cons_append, List.nil_append]

theorem fieldLines_cons (indent : List Char) (f : String × String) (fs : List (String × String)) :
    ∃ cs, fieldLines indent (f :: fs) = fieldLine indent f.1 f.2 ++ cs := by
  cases fs with
  | nil => exact ⟨_, fieldLines_single indent f⟩
  | cons g gs => exact ⟨_, fieldLines_cons_cons indent f g gs⟩

theorem length_lt_fieldLine (indent : List Char) (name text : String) :
    text.toList.length < (fieldLine indent name text).length := by
  simp only [fieldLine, List.length_append, List.length_cons]
  omega

theorem blank_margin {gap indent : List Char} (hgap : Blank gap) (hindent : Blank indent) :
    Blank (gap ++ (indent ++ [' ', ' '])) := by
  have hmargin : Blank [' ', ' '] := by simp [Blank, isBlank]
  exact List.forall_mem_append.2 ⟨hgap, List.forall_mem_append.2 ⟨hindent, hmargin⟩⟩

theorem readFields_line (name : String) (rest : List Char) {indent gap : List Char}
    {text : String} {v : Value} {n : Nat} (hgap : Blank gap) (hindent : Blank indent)
    (htext : Writes text.toList v) (hn : text.toList.length < n) (hrest : Ends rest) :
    readFields (n + 1) (gap ++ (fieldLine indent name text ++ rest)) =
      match skipBlanks rest with
      | '\x7d' :: cs => some ([(some name, v)], cs)
      | ',' :: cs => do
        let (fields, cs) ← readFields n cs
        return ((some name, v) :: fields, cs)
      | _ => none := by
  have hstep := readFields_step name (blank_margin hgap hindent) htext hn hrest
  simpa [fieldLine] using hstep

/-- Lines of fields are read back if the texts write their values. -/
theorem readFields_lines (rest : List Char) {indent : List Char} (hindent : Blank indent)
    {fields : List (String × String × Value)} (hne : fields ≠ [])
    (h : ∀ f ∈ fields, Writes f.2.1.toList f.2.2) {gap : List Char} (hgap : Blank gap) {n : Nat}
    (hn : (fieldLines indent (fields.map fun f => (f.1, f.2.1))).length ≤ n) :
    readFields n (gap ++ (fieldLines indent (fields.map fun f => (f.1, f.2.1)) ++ rest)) =
      some (fields.map fun f => (some f.1, f.2.2), rest) := by
  induction fields generalizing gap n with
  | nil => exact absurd rfl hne
  | cons f fs ih =>
    obtain ⟨hf, hfs⟩ := List.forall_mem_cons.1 h
    have hlength := length_lt_fieldLine indent f.1 f.2.1
    cases fs with
    | nil =>
      simp only [List.map_cons, List.map_nil, fieldLines_single, List.length_append,
        List.length_cons] at hn ⊢
      obtain ⟨n, rfl⟩ : ∃ m, n = m + 1 := ⟨n - 1, by omega⟩
      have hend : Blank ('\n' :: indent) := List.forall_mem_cons.2 ⟨rfl, hindent⟩
      have hclose := skipBlanks_append ('\x7d' :: rest) hend
      have hline := readFields_line f.1 ('\n' :: indent ++ '\x7d' :: rest) (n := n) hgap hindent hf
        (by omega) (by simp [Ends])
      rw [hclose, skipBlanks_of_ne rest rfl] at hline
      simpa using hline
    | cons g gs =>
      simp only [List.map_cons, fieldLines_cons_cons, List.length_append, List.length_cons] at hn ⊢
      obtain ⟨n, rfl⟩ : ∃ m, n = m + 1 := ⟨n - 1, by omega⟩
      have hbreak : Blank ['\n'] := by simp [Blank, isBlank]
      have hnext := ih (by simp) hfs hbreak (n := n) (by simp only [List.map_cons]; omega)
      have hline := readFields_line f.1
        (',' :: '\n' :: (fieldLines indent ((g :: gs).map fun f => (f.1, f.2.1)) ++ rest)) (n := n)
        hgap hindent hf (by omega) (by simp [Ends])
      rw [List.singleton_append] at hnext
      rw [skipBlanks_of_ne _ rfl] at hline
      simp only [hnext, bind, Option.bind] at hline
      simpa using hline

theorem readFields_of_skipBlanks_eq {cs ds : List Char} (h : skipBlanks cs = skipBlanks ds)
    (n : Nat) : readFields n cs = readFields n ds := by
  cases n with
  | zero => rfl
  | succ n => rw [readFields, readFields, h]

theorem exists_quote_fieldLines {gap indent : List Char} (hgap : Blank gap)
    (hindent : Blank indent) (f : String × String) (fs : List (String × String))
    (rest : List Char) :
    ∃ cs, skipBlanks (gap ++ (fieldLines indent (f :: fs) ++ rest)) = '"' :: cs := by
  obtain ⟨cs, hcs⟩ := fieldLines_cons indent f fs
  have hskip := skipBlanks_append ((quote f.1).toList ++ ':' :: ' ' :: f.2.toList ++ cs ++ rest)
    (blank_margin hgap hindent)
  rw [toList_quote] at hskip
  refine ⟨_, Eq.trans ?_ hskip⟩
  simp [hcs, fieldLine, toList_quote]

/-- An object writes its fields if each of their texts writes its value. -/
theorem writes_object (level : Nat) (fields : List (String × String × Value))
    (h : ∀ f ∈ fields, Writes f.2.1.toList f.2.2) :
    Writes (writeObject level (fields.map fun f => (f.1, f.2.1))).toList
      (.object (fields.map fun f => (some f.1, f.2.2))) := by
  intro n rest hn _
  obtain ⟨n, rfl⟩ : ∃ m, n = m + 1 := ⟨n - 1, by omega⟩
  have hopen (cs : List Char) : skipBlanks ('\x7b' :: cs) = '\x7b' :: cs := rfl
  by_cases hne : fields = []
  · subst hne
    have htext : (writeObject level []).toList = ['\x7b', '\x7d'] := by simp [writeObject]
    simp only [List.map_nil, htext, List.cons_append, List.nil_append, readValue, hopen]
    rfl
  · have hindent : Blank (List.replicate (2 * level) ' ') := fun c hc => by
      rw [List.eq_of_mem_replicate hc]
      rfl
    have hbreak : Blank ['\n'] := by simp [Blank, isBlank]
    rw [toList_writeObject level (by simpa using hne)] at hn ⊢
    simp only [List.length_cons] at hn
    have hfields := readFields_lines rest hindent hne h hbreak (n := n) (by omega)
    obtain ⟨f, fs, rfl⟩ := List.exists_cons_of_ne_nil hne
    -- The reader passes the blanks before it looks whether there is a field.
    obtain ⟨cs, hcs⟩ := exists_quote_fieldLines hbreak hindent (f.1, f.2.1)
      (fs.map fun f => (f.1, f.2.1)) rest
    rw [← List.map_cons (f := fun f : String × String × Value => (f.1, f.2.1))] at hcs
    rw [readFields_of_skipBlanks_eq (hcs.trans (skipBlanks_of_ne cs rfl).symm)] at hfields
    rw [List.singleton_append] at hcs
    simp only [List.cons_append, readValue, hopen, hcs]
    show (readFields n ('"' :: cs)).map _ = _
    rw [hfields]
    rfl

/-- A text that writes a value is the document of that value. -/
theorem Writes.read {text : String} {v : Value} (h : Writes text.toList v) :
    Json.read text = some v := by
  have hread := h (text.toList.length + 1) [] (by omega) (by simp [Ends])
  rw [List.append_nil] at hread
  rw [Json.read, hread]
  rfl

end Json
end Condition
