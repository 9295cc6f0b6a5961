import JvmLint.History.Tables
import JvmLint.Proofs.CalendarLaws

/-!
# Stored timestamps

A timestamp is stored as a text of numbers of fixed width. Reading the text gives the instant back, and
the texts are ordered as the instants are, as long as the year has at most four digits and no sign.
-/

namespace JvmLint.Timestamp

/-! ## Numbers of fixed width -/

def valueFrom (i : Nat) (s : List Char) : Nat := s.foldl (fun n c => 10 * n + (c.toNat - 48)) i

theorem valueFrom_cons (i : Nat) (c : Char) (s : List Char) :
    valueFrom i (c :: s) = valueFrom (10 * i + (c.toNat - 48)) s := List.foldl_cons

theorem isDigit_bounds {c : Char} (h : c.isDigit = true) : 48 ≤ c.toNat ∧ c.toNat ≤ 57 := Char.isDigit_iff_toNat.1 h

/-- Of digits in equal number, those for the smaller number come first, whatever follows them. -/
theorem valueFrom_lt {a b : List Char} (hlength : a.length = b.length) (ha : ∀ c ∈ a, c.isDigit) (hb : ∀ c ∈ b, c.isDigit)
    (x y : List Char) {i j : Nat} (h : valueFrom i a < valueFrom j b) : i < j ∨ i = j ∧ a ++ x < b ++ y := by
  induction a generalizing b i j with
  | nil =>
    cases b with
    | nil => exact .inl h
    | cons d b => cases hlength
  | cons c a ih =>
    cases b with
    | nil => cases hlength
    | cons d b =>
      have hc := isDigit_bounds (ha c (by simp))
      have hd := isDigit_bounds (hb d (by simp))
      have ha' : ∀ e ∈ a, e.isDigit := fun e he => ha e (by simp [he])
      have hb' : ∀ e ∈ b, e.isDigit := fun e he => hb e (by simp [he])
      rw [valueFrom_cons, valueFrom_cons] at h
      rcases ih (by simpa using hlength) ha' hb' h with hlt | ⟨heq, htail⟩
      · by_cases hij : i < j
        · exact .inl hij
        · have hcd : c < d := Char.lt_def.2 (UInt32.lt_iff_toNat_lt.2 (show c.toNat < d.toNat by omega))
          exact .inr ⟨by omega, List.cons_lt_cons_iff.2 (.inl hcd)⟩
      · have hcd : c = d := Char.toNat_inj.1 (by omega)
        exact .inr ⟨by omega, List.cons_lt_cons_iff.2 (.inr ⟨hcd, htail⟩)⟩

theorem toList_padded (w n : Nat) :
    (padded w n).toList = List.replicate (w - (Nat.toDigits 10 n).length) '0' ++ Nat.toDigits 10 n := by
  rw [padded, Decimal.padLeft, Nat.toString_eq_ofList_toDigits, String.toList_ofList, String.toList_ofList,
    String.length_ofList]

theorem isDigit_padded {w n : Nat} {c : Char} (h : c ∈ (padded w n).toList) : c.isDigit = true := by
  rw [toList_padded, List.mem_append] at h
  rcases h with hzero | hdigit
  · rw [List.eq_of_mem_replicate hzero]
    rfl
  · exact Nat.isDigit_of_mem_toDigits (by decide) (by decide) hdigit

theorem length_padded {w n : Nat} (hw : 0 < w) (h : n < Nat.pow 10 w) : (padded w n).toList.length = w := by
  have hle : (Nat.toDigits 10 n).length ≤ w := (Nat.length_toDigits_le_iff (by decide) hw).2 h
  rw [toList_padded, List.length_append, List.length_replicate]
  omega

theorem valueFrom_padded (w n : Nat) : valueFrom 0 (padded w n).toList = n := by
  have hzeros : ∀ k, valueFrom 0 (List.replicate k '0') = 0 := by
    intro k
    induction k with
    | zero => rfl
    | succ k ih => exact ih
  calc valueFrom 0 (padded w n).toList
      = valueFrom (valueFrom 0 (List.replicate (w - (Nat.toDigits 10 n).length) '0')) (Nat.toDigits 10 n) := by
        rw [toList_padded]
        exact List.foldl_append
    _ = Nat.ofDigitChars 10 (Nat.toDigits 10 n) 0 := by
        rw [hzeros]
        rfl
    _ = n := Nat.ofDigitChars_ten_toDigits

theorem padded_lt {w m n : Nat} (hw : 0 < w) (hm : m < n) (hn : n < Nat.pow 10 w) (x y : List Char) :
    (padded w m).toList ++ x < (padded w n).toList ++ y := by
  have hlength : (padded w m).toList.length = (padded w n).toList.length := by
    rw [length_padded hw hn, length_padded hw (Nat.lt_trans hm hn)]
  have hvalue : valueFrom 0 (padded w m).toList < valueFrom 0 (padded w n).toList := by
    rwa [valueFrom_padded, valueFrom_padded]
  rcases valueFrom_lt hlength (fun c => isDigit_padded) (fun c => isDigit_padded) x y hvalue with h | ⟨-, h⟩
  · exact absurd h (Nat.lt_irrefl 0)
  · exact h

theorem number?_padded {w n : Nat} (hw : 0 < w) (h : n < Nat.pow 10 w) (rest : List Char) :
    number? w ((padded w n).toList ++ rest) = some (n, rest) := by
  have hlength := length_padded hw h
  have htake : ((padded w n).toList ++ rest).take w = (padded w n).toList := List.take_left' hlength
  have hdrop : ((padded w n).toList ++ rest).drop w = rest := List.drop_left' hlength
  have hdigits : (padded w n).toList.all Char.isDigit = true := List.all_eq_true.2 fun c hc => isDigit_padded hc
  simp only [number?, htake, hdrop, hlength, hdigits, decide_true, Bool.and_self, if_true]
  rw [← valueFrom, valueFrom_padded]

/-! ## What calendar and clock show -/

theorem fields_clock (t : Timestamp) :
    t.fields.hour < 24 ∧ t.fields.minute < 60 ∧ t.fields.second < 60 ∧ t.fields.nanosecond < 1000000000 := by
  simp only [fields, Timestamp.second]
  omega

theorem ofFields_fields (t : Timestamp) : ofFields t.fields t.offset = t := by
  obtain ⟨nanos, offset⟩ := t
  simp only [ofFields, fields, Date.toDays_ofDays, Timestamp.second, mk.injEq, and_true]
  omega

def Fields.Before (f g : Fields) : Prop :=
  f.date.year < g.date.year ∨ f.date.year = g.date.year ∧ (f.date.month < g.date.month ∨ f.date.month = g.date.month ∧
    (f.date.day < g.date.day ∨ f.date.day = g.date.day ∧ (f.hour < g.hour ∨ f.hour = g.hour ∧
      (f.minute < g.minute ∨ f.minute = g.minute ∧ (f.second < g.second ∨ f.second = g.second ∧
        f.nanosecond < g.nanosecond)))))

theorem fields_before {a b : Timestamp} (h : a.nanos < b.nanos) : a.utc.fields.Before b.utc.fields := by
  simp only [Fields.Before, fields, utc, Timestamp.second, Int.zero_mul, Int.add_zero]
  by_cases hday : a.nanos / 1000000000 / 86400 < b.nanos / 1000000000 / 86400
  · have hdate := Date.before_ofDays hday
    unfold Date.Before at hdate
    tauto
  · have hsame : a.nanos / 1000000000 / 86400 = b.nanos / 1000000000 / 86400 := by omega
    refine .inr ⟨by rw [hsame], .inr ⟨by rw [hsame], .inr ⟨by rw [hsame], ?_⟩⟩⟩
    omega

/-! ## The stored text -/

def Storable (t : Timestamp) : Prop := 0 ≤ t.utc.fields.date.year ∧ t.utc.fields.date.year ≤ 9999

instance (t : Timestamp) : Decidable t.Storable :=
  inferInstanceAs (Decidable (0 ≤ t.utc.fields.date.year ∧ t.utc.fields.date.year ≤ 9999))

def storedChars (f : Fields) : List Char :=
  (padded 4 f.date.year.toNat).toList ++ '-' :: ((padded 2 f.date.month).toList ++ '-' ::
    ((padded 2 f.date.day).toList ++ 'T' :: ((padded 2 f.hour).toList ++ ':' :: ((padded 2 f.minute).toList ++ ':' ::
      ((padded 2 f.second).toList ++ '.' :: ((padded 9 f.nanosecond).toList ++ ['Z']))))))

variable {t a b : Timestamp}

theorem toList_stored (h : t.Storable) : t.stored.toList = storedChars t.utc.fields := by
  have hyear : yearText t.utc.fields.date.year = padded 4 t.utc.fields.date.year.toNat := by
    have hnonneg : ¬ t.utc.fields.date.year < 0 := by
      have := h.1
      omega
    have habs : t.utc.fields.date.year.natAbs = t.utc.fields.date.year.toNat := by omega
    simp [yearText, hnonneg, habs]
  simp [stored, dateText, clockText, hyear, storedChars]

theorem Storable.bounds (h : t.Storable) :
    t.utc.fields.date.year.toNat < Nat.pow 10 4 ∧ t.utc.fields.date.month < Nat.pow 10 2 ∧
    t.utc.fields.date.day < Nat.pow 10 2 ∧ t.utc.fields.hour < Nat.pow 10 2 ∧ t.utc.fields.minute < Nat.pow 10 2 ∧
    t.utc.fields.second < Nat.pow 10 2 ∧ t.utc.fields.nanosecond < Nat.pow 10 9 := by
  obtain ⟨hyear, hyear'⟩ := h
  obtain ⟨hhour, hminute, hsecond, hnano⟩ := fields_clock t.utc
  have hdate : t.utc.fields.date.Valid := Date.valid_ofDays _
  have hmonth := hdate.month_le
  have hday := hdate.day_le.trans (Date.monthLength_le _ _)
  have h4 : Nat.pow 10 4 = 10000 := rfl
  have h2 : Nat.pow 10 2 = 100 := rfl
  have h9 : Nat.pow 10 9 = 1000000000 := rfl
  rw [h4, h2, h9]
  omega

theorem block_lt {w m n : Nat} (hw : 0 < w) (hn : n < Nat.pow 10 w) (c : Char) {x y : List Char}
    (h : m < n ∨ m = n ∧ x < y) : (padded w m).toList ++ c :: x < (padded w n).toList ++ c :: y := by
  rcases h with hm | ⟨rfl, hxy⟩
  · exact padded_lt hw hm hn _ _
  · exact List.append_left_lt (List.cons_lt_cons_iff.2 (.inr ⟨rfl, hxy⟩))

theorem stored_lt (ha : a.Storable) (hb : b.Storable) (h : a.nanos < b.nanos) : a.stored < b.stored := by
  obtain ⟨hyear, hmonth, hday, hhour, hminute, hsecond, hnano⟩ := hb.bounds
  have hbefore := fields_before h
  rw [String.lt_iff, toList_stored ha, toList_stored hb]
  unfold storedChars
  have hyears : a.utc.fields.date.year.toNat < b.utc.fields.date.year.toNat ↔
      a.utc.fields.date.year < b.utc.fields.date.year := by
    have := ha.1
    omega
  have hyears' : a.utc.fields.date.year.toNat = b.utc.fields.date.year.toNat ↔
      a.utc.fields.date.year = b.utc.fields.date.year := by
    have := ha.1
    have := hb.1
    omega
  -- block after block, as the order of the fields goes
  refine block_lt (by decide) hyear _ (hbefore.imp hyears.2 (And.imp hyears'.2 fun hbefore => ?_))
  refine block_lt (by decide) hmonth _ (hbefore.imp_right (And.imp_right fun hbefore => ?_))
  refine block_lt (by decide) hday _ (hbefore.imp_right (And.imp_right fun hbefore => ?_))
  refine block_lt (by decide) hhour _ (hbefore.imp_right (And.imp_right fun hbefore => ?_))
  refine block_lt (by decide) hminute _ (hbefore.imp_right (And.imp_right fun hbefore => ?_))
  refine block_lt (by decide) hsecond _ (hbefore.imp_right (And.imp_right fun hbefore => ?_))
  exact padded_lt (by decide) hbefore hnano _ _

theorem fraction?_padded {n : Nat} (h : n < Nat.pow 10 9) :
    fraction? ('.' :: ((padded 9 n).toList ++ ['Z'])) = some (n, ['Z']) := by
  have hdigits : ∀ c ∈ (padded 9 n).toList, c.isDigit = true := fun c => isDigit_padded
  have htake : ((padded 9 n).toList ++ ['Z']).takeWhile Char.isDigit = (padded 9 n).toList := by
    rw [List.takeWhile_append_of_pos hdigits]
    exact List.append_nil _
  have hdrop : ((padded 9 n).toList ++ ['Z']).dropWhile Char.isDigit = ['Z'] := List.dropWhile_append_of_pos hdigits
  have hlength : (padded 9 n).toList.length = 9 := length_padded (by decide) h
  have hsome : (padded 9 n).toList.isEmpty = false := by
    rw [List.isEmpty_eq_false_iff]
    exact List.ne_nil_of_length_pos (by omega)
  have hnumber : number? 9 (padded 9 n).toList = some (n, []) := by
    have hall := number?_padded (by decide) h []
    rwa [List.append_nil] at hall
  simp only [fraction?, htake, hdrop, hsome, List.take_left' hlength, hnumber]
  rfl

/-- Reading a stored text gives the instant back. -/
theorem parse?_stored (h : t.Storable) : parse? t.stored = some t.utc := by
  obtain ⟨hyear, hmonth, hday, hhour, hminute, hsecond, hnano⟩ := h.bounds
  have hdate : t.utc.fields.date.Valid := Date.valid_ofDays _
  have hclock := fields_clock t.utc
  have hyears : (t.utc.fields.date.year.toNat : Int) = t.utc.fields.date.year := Int.toNat_of_nonneg h.1
  have hback : ofFields t.utc.fields 0 = t.utc := ofFields_fields t.utc
  rw [parse?, toList_stored h, storedChars]
  -- from here on only the numbers count, not what they were computed from
  generalize t.utc.fields = f at *
  have hvalid : (f.date.month = 0 || 12 < f.date.month || f.date.day = 0 ||
      Date.monthLength f.date.year f.date.month < f.date.day ||
      23 < f.hour || 59 < f.minute || 59 < f.second : Bool) = false := by
    have := hdate.month_pos
    have := hdate.month_le
    have := hdate.day_pos
    have := hdate.day_le
    simp only [Bool.or_eq_false_iff, decide_eq_false_iff_not]
    omega
  refine Option.bind_eq_some_iff.2 ⟨_, number?_padded (by decide) hyear _, ?_⟩
  refine Option.bind_eq_some_iff.2 ⟨_, rfl, Option.bind_eq_some_iff.2 ⟨_, number?_padded (by decide) hmonth _, ?_⟩⟩
  refine Option.bind_eq_some_iff.2 ⟨_, rfl, Option.bind_eq_some_iff.2 ⟨_, number?_padded (by decide) hday _, ?_⟩⟩
  refine Option.bind_eq_some_iff.2 ⟨_, rfl, Option.bind_eq_some_iff.2 ⟨_, number?_padded (by decide) hhour _, ?_⟩⟩
  refine Option.bind_eq_some_iff.2 ⟨_, rfl, Option.bind_eq_some_iff.2 ⟨_, number?_padded (by decide) hminute _, ?_⟩⟩
  refine Option.bind_eq_some_iff.2 ⟨_, rfl, Option.bind_eq_some_iff.2 ⟨_, number?_padded (by decide) hsecond _, ?_⟩⟩
  refine Option.bind_eq_some_iff.2 ⟨_, fraction?_padded hnano, Option.bind_eq_some_iff.2 ⟨0, rfl, ?_⟩⟩
  simp only [hyears, hvalid]
  exact congrArg some hback

theorem stored_inj (ha : a.Storable) (hb : b.Storable) : a.stored = b.stored ↔ a.nanos = b.nanos := by
  constructor
  · intro h
    have hparse : some a.utc = some b.utc := by rw [← parse?_stored ha, ← parse?_stored hb, h]
    have hsame : a.utc = b.utc := Option.some.inj hparse
    exact (mk.inj hsame).1
  · intro h
    have hsame : a.utc = b.utc := by simp [utc, h]
    rw [stored, stored, hsame]

/-- The texts are ordered as the instants are. -/
theorem stored_lt_iff (ha : a.Storable) (hb : b.Storable) : a.stored < b.stored ↔ a.nanos < b.nanos := by
  constructor
  · intro h
    by_contra hle
    rcases Int.lt_or_eq_of_le (Int.not_lt.1 hle) with hlt | heq
    · exact String.lt_asymm h (stored_lt hb ha hlt)
    · rw [(stored_inj hb ha).2 heq] at h
      exact String.lt_irrefl _ h
  · exact stored_lt ha hb

end JvmLint.Timestamp
