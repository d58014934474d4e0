import Cadence.Toml.Writer

/-!
Plain values at the end of a line: what is written for an integer or a truth value is read as that value. A numeral is
no date and no time, because what ends it is a line feed, and none of several digits begins with a zero.
-/

namespace Cadence.Toml

/-! ### Digits -/

theorem decimal_toDigits (n : Nat) : decimal (Nat.toDigits 10 n) = n := by
  have h := Nat.ofDigitChars_ten_toDigits (n := n)
  rwa [Nat.ofDigitChars_eq_foldl] at h

/-- The digits of a number, of which the first is a zero only if it is the only one. -/
theorem exists_digits (n : Nat) : ∃ c digits, Nat.toDigits 10 n = c :: digits ∧
    (∀ c' ∈ c :: digits, c'.isDigit = true) ∧ (c = '0' → digits = []) := by
  induction n using Nat.strongRecOn with
  | _ n ih =>
    have hall : ∀ c' ∈ Nat.toDigits 10 n, c'.isDigit = true := fun c' hmem =>
      Nat.isDigit_of_mem_toDigits (by decide) (by decide) hmem
    rw [Nat.toDigits_eq_if (by decide)] at hall ⊢
    split at hall
    · exact ⟨_, [], if_pos ‹_›, hall, fun _ => rfl⟩
    · rename_i hlarge
      obtain ⟨c, digits, hfront, _, hzero⟩ := ih (n / 10) (by omega)
      rw [hfront] at hall
      refine ⟨c, digits ++ [(n % 10).digitChar], by rw [if_neg hlarge, hfront]; rfl, hall, ?_⟩
      -- if the digits before the last one are a zero, the number is less than ten
      rintro rfl
      have hdecimal := decimal_toDigits (n / 10)
      rw [hfront, hzero rfl] at hdecimal
      have : n / 10 = 0 := hdecimal.symm
      omega

theorem digitRun_go {digits : List Char} (hdigits : ∀ c ∈ digits, c.isDigit = true) (rest : List Char) :
    digitRun.go Char.isDigit (digits ++ '\n' :: rest) = (digits, '\n' :: rest) := by
  induction digits with
  | nil => rfl
  | cons c digits ih =>
    have hc : c.isDigit = true := hdigits c (by simp)
    have hrest := ih fun c hmem => hdigits c (by simp [hmem])
    rw [List.cons_append, digitRun.go.eq_def]
    split
    · rename_i heq
      rw [(List.cons.inj heq).1] at hc
      cases hc
    · rename_i heq
      obtain ⟨rfl, rfl⟩ := List.cons.inj heq
      rw [if_pos hc, hrest]
      rfl
    · rename_i heq
      cases heq

theorem decimalRun_toDigits (n : Nat) (rest : List Char) :
    decimalRun (Nat.toDigits 10 n ++ '\n' :: rest) = some (Nat.toDigits 10 n, '\n' :: rest) := by
  obtain ⟨c, digits, hn, hdigits, hzero⟩ := exists_digits n
  rw [hn, List.cons_append, decimalRun.eq_def]
  split
  · rename_i heq
    obtain ⟨rfl, rfl⟩ := List.cons.inj heq
    rw [hzero rfl]
    rfl
  · rw [digitRun, if_pos (hdigits c (by simp)), digitRun_go fun c' hmem => hdigits c' (by simp [hmem])]
    rfl

theorem after?_cons_of_ne {mark c : Char} (h : mark ≠ c) (word text : List Char) :
    after? (mark :: word) (c :: text) = none := by
  rw [after?, if_neg]
  simp [h]

/-! ### Neither a date nor a time -/

/-- A field of a date or a time takes digits of the numeral, and no more than there are. -/
theorem rest_of_field {digits rest rest' : List Char} {count low high k : Nat}
    (h : field count low high (digits ++ '\n' :: rest) = some (k, rest')) :
    rest' = digits.drop count ++ '\n' :: rest := by
  rw [field] at h
  dsimp only at h
  split at h
  · rename_i hcond
    simp only [Bool.and_eq_true, List.all_eq_true] at hcond
    have hcount : count ≤ digits.length := by
      refine Nat.le_of_not_lt fun hlt => ?_
      obtain ⟨m, hm⟩ : ∃ m, count - digits.length = m + 1 := ⟨count - digits.length - 1, by omega⟩
      have hfeed : '\n' ∈ (digits ++ '\n' :: rest).take count := by
        rw [List.take_append, hm]
        simp
      cases hcond.2 '\n' hfeed
    split at h
    · cases h
      exact List.drop_append_of_le_length hcount
    · cases h
  · cases h

/-- What follows a field within the numeral, or behind it, is none of the marks of a date or a time. -/
theorem after?_of_field {digits rest rest' : List Char} (hdigits : ∀ c ∈ digits, c.isDigit = true)
    {count low high k : Nat} (h : field count low high (digits ++ '\n' :: rest) = some (k, rest')) (mark : Char)
    (hmark : mark.isDigit = false) (hfeed : mark ≠ '\n') : after? [mark] rest' = none := by
  rw [rest_of_field h]
  cases hdrop : digits.drop count with
  | nil => exact after?_cons_of_ne hfeed ..
  | cons c digits' =>
    refine after?_cons_of_ne ?_ ..
    rintro rfl
    rw [hdigits mark (List.mem_of_mem_drop (hdrop ▸ List.mem_cons_self))] at hmark
    cases hmark

theorem moment_of_not_isDigit {c : Char} (hc : c.isDigit = false) (text : List Char) : moment (c :: text) = none := by
  have hfield : ∀ count low high, field (count + 1) low high (c :: text) = none := by simp [field, hc]
  simp [moment, skipMoment, date?, time?, hfield]

theorem moment_of_digits {digits : List Char} (hdigits : ∀ c ∈ digits, c.isDigit = true) (rest : List Char) :
    moment (digits ++ '\n' :: rest) = none := by
  have hdate : date? (digits ++ '\n' :: rest) = none := by
    unfold date?
    cases hfield : field 4 0 9999 (digits ++ '\n' :: rest) with
    | none => rfl
    | some read => simp [after?_of_field hdigits hfield '-' (by decide) (by decide)]
  have htime : time? (digits ++ '\n' :: rest) = none := by
    unfold time?
    cases hfield : field 2 0 23 (digits ++ '\n' :: rest) with
    | none => rfl
    | some read => simp [after?_of_field hdigits hfield ':' (by decide) (by decide)]
  rw [moment, skipMoment, hdate]
  dsimp only
  rw [htime]
  rfl

/-! ### Plain values -/

/-- A numeral with its sign. -/
def numeral (negative : Bool) (n : Nat) : List Char := (if negative then ['-'] else []) ++ Nat.toDigits 10 n

theorem sign_numeral (negative : Bool) (n : Nat) (rest : List Char) :
    sign (numeral negative n ++ rest) = (negative, Nat.toDigits 10 n ++ rest) := by
  cases negative with
  | true => rfl
  | false =>
    obtain ⟨c, digits, hn, hdigits, _⟩ := exists_digits n
    have hc := hdigits c (by simp)
    simp only [numeral, Bool.false_eq_true, if_false, List.nil_append, hn, List.cons_append]
    rw [sign.eq_def]
    split
    · rename_i heq
      rw [(List.cons.inj heq).1] at hc
      cases hc
    · rename_i heq
      rw [(List.cons.inj heq).1] at hc
      cases hc
    · rfl

theorem number_numeral {negative : Bool} {n : Nat} (hfits : isInt64 (signed negative n) = true) (rest : List Char) :
    number (numeral negative n ++ '\n' :: rest) = some (.integer (signed negative n), '\n' :: rest) := by
  have hword : ∀ (first : Char) (word : List Char), first.isDigit = false →
      after? (first :: word) (Nat.toDigits 10 n ++ '\n' :: rest) = none := by
    intro first word hfirst
    obtain ⟨c, digits, hn, hdigits, _⟩ := exists_digits n
    rw [hn]
    refine after?_cons_of_ne ?_ ..
    rintro rfl
    rw [hdigits first (by simp)] at hfirst
    cases hfirst
  have hinf : after? "inf".toList (Nat.toDigits 10 n ++ '\n' :: rest) = none := hword 'i' ['n', 'f'] (by decide)
  have hnan : after? "nan".toList (Nat.toDigits 10 n ++ '\n' :: rest) = none := hword 'n' ['a', 'n'] (by decide)
  rw [number, sign_numeral]
  dsimp only
  rw [hinf, hnan, decimalRun_toDigits]
  show (if isInt64 (signed negative (decimal (Nat.toDigits 10 n))) then some (Value.integer _, '\n' :: rest) else none) = _
  rw [decimal_toDigits, if_pos hfits]

theorem moment_numeral (negative : Bool) (n : Nat) (rest : List Char) :
    moment (numeral negative n ++ '\n' :: rest) = none := by
  cases negative with
  | true => exact moment_of_not_isDigit (by decide) _
  | false =>
    obtain ⟨c, digits, hn, hdigits, _⟩ := exists_digits n
    simp only [numeral, Bool.false_eq_true, if_false, List.nil_append, hn]
    exact moment_of_digits hdigits rest

theorem scalar_numeral {negative : Bool} {n : Nat} (hfits : isInt64 (signed negative n) = true) (rest : List Char) :
    scalar (numeral negative n ++ '\n' :: rest) = some (.integer (signed negative n), '\n' :: rest) := by
  have hnumber := number_numeral hfits rest
  have hmoment := moment_numeral negative n rest
  cases negative with
  | true =>
    simp only [numeral, if_true, List.cons_append, List.nil_append] at hnumber hmoment ⊢
    rw [scalar.eq_def]
    split
    case h_8 => rw [hmoment]; exact hnumber
    all_goals
      rename_i heq
      cases heq
  | false =>
    obtain ⟨c, digits, hn, hdigits, hzero⟩ := exists_digits n
    have hc := hdigits c (by simp)
    simp only [numeral, Bool.false_eq_true, if_false, List.nil_append, hn, List.cons_append] at hnumber hmoment ⊢
    rw [scalar.eq_def]
    split
    case h_8 => rw [hmoment]; exact hnumber
    all_goals
      rename_i heq
      obtain ⟨rfl, hrest⟩ := List.cons.inj heq
    case h_1 | h_2 | h_3 | h_4 => cases hc
    all_goals
      rw [hzero rfl] at hrest
      cases hrest

theorem scalar_boolean (b : Bool) (rest : List Char) :
    scalar ((if b then "true" else "false").toList ++ '\n' :: rest) = some (.boolean b, '\n' :: rest) := by
  cases b <;> rfl

theorem toList_toString (n : Int) : ∃ negative m, n = signed negative m ∧ (toString n).toList = numeral negative m := by
  have hdigits : ∀ m : Nat, (toString m).toList = Nat.toDigits 10 m := fun m => by
    rw [Nat.toString_eq_ofList_toDigits, String.toList_ofList]
  cases n with
  | ofNat m => exact ⟨false, m, rfl, hdigits m⟩
  | negSucc m =>
    have htext : toString (Int.negSucc m) = "-" ++ toString (m + 1) := rfl
    exact ⟨true, m + 1, rfl, by rw [htext, String.toList_append, hdigits]; rfl⟩

/-- What is written for a plain value is read as that value at the end of a line. -/
theorem scalar_writePlain {v : Value} {text : String} (h : writePlain v = some text) (rest : List Char) :
    scalar (text.toList ++ '\n' :: rest) = some (v, '\n' :: rest) := by
  unfold writePlain at h
  split at h
  · rename_i n
    split at h
    · rename_i hfits
      cases h
      obtain ⟨negative, m, rfl, htext⟩ := toList_toString n
      rw [htext]
      exact scalar_numeral hfits rest
    · cases h
  · cases h
    exact scalar_boolean true rest
  · cases h
    exact scalar_boolean false rest
  · cases h

end Cadence.Toml
