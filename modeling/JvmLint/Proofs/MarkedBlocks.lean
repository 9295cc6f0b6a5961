import JvmLint.Proofs.Blanks
import JvmLint.Proofs.CountedFindings
import JvmLint.Report.Markdown
import JvmLint.Report.Markers
import Mathlib.Data.List.Chain
import Mathlib.Data.List.DropRight
import Mathlib.Data.List.Infix

/-!
# Blocks filled in

The comments of a marked block begin with a character that they do not hold again, and they hold no line end. So
occurrences do not overlap, and none begins before a line end and ends behind it: a document with one block is counted
piece by piece (`count_start`, `count_end`). Filling the block in leaves a document with the same pieces around it and
the same kind of line ends, which is why the next filling does not see the last one.
-/

namespace JvmLint

namespace Text

/-! ## Occurrences -/

variable {t a b s : List Char} {x d : Char} {xs : List Char}

theorem eq_of_cut (h : cut t s = some (a, b)) : s = a ++ t ++ b := by
  induction s generalizing a with
  | nil =>
    simp only [cut, Option.ite_none_right_eq_some, List.isEmpty_iff, Option.some.injEq, Prod.mk.injEq] at h
    obtain ⟨rfl, rfl, rfl⟩ := h
    rfl
  | cons c s ih =>
    rw [cut] at h
    by_cases hfirst : t.isPrefixOf (c :: s) = true
    · simp only [hfirst, if_true, Option.some.injEq, Prod.mk.injEq] at h
      obtain ⟨rfl, rfl⟩ := h
      obtain ⟨rest, hrest⟩ := List.isPrefixOf_iff_prefix.1 hfirst
      simp [← hrest]
    · rw [if_neg hfirst, Option.map_eq_some_iff] at h
      obtain ⟨⟨front, back⟩, hcut, hparts⟩ := h
      cases hparts
      simp [ih hcut]

theorem cut_isSome_iff : (cut t s).isSome = true ↔ t <:+: s := by
  induction s with
  | nil => cases t <;> simp [cut]
  | cons c s ih =>
    rw [cut, List.infix_cons_iff, ← ih, ← List.isPrefixOf_iff_prefix]
    by_cases hfirst : t.isPrefixOf (c :: s) = true
    · simp [hfirst]
    · simp [hfirst]

theorem contains_iff {s sub : String} : contains s sub = true ↔ sub.toList <:+: s.toList := cut_isSome_iff

theorem countFrom_skip (n : Nat) (ha : a.length = n) : countFrom t n (a ++ b) = countFrom t 0 b := by
  induction a generalizing n with
  | nil => subst ha; rfl
  | cons c a ih =>
    subst ha
    rw [List.length_cons, List.cons_append, countFrom, ih _ rfl]

theorem countFrom_self : countFrom (x :: xs) 0 (x :: xs ++ b) = 1 + countFrom (x :: xs) 0 b := by
  have hfirst : (x :: xs).isPrefixOf (x :: (xs ++ b)) = true := by simp [List.isPrefixOf_iff_prefix]
  rw [List.cons_append, countFrom, if_pos hfirst, countFrom_skip _ (by simp)]

theorem countFrom_step (hfirst : ¬ t <+: d :: s) : countFrom t 0 (d :: s) = countFrom t 0 s := by
  rw [countFrom, if_neg (mt List.isPrefixOf_iff_prefix.1 hfirst)]

theorem cut_self : cut (x :: xs) (x :: xs ++ b) = some ([], b) := by
  have hfirst : (x :: xs).isPrefixOf (x :: (xs ++ b)) = true := by simp [List.isPrefixOf_iff_prefix]
  rw [List.cons_append, cut, if_pos hfirst]
  simp

theorem cut_step (hfirst : ¬ t <+: d :: s) : cut t (d :: s) = (cut t s).map fun p => (d :: p.1, p.2) := by
  rw [cut, if_neg (mt List.isPrefixOf_iff_prefix.1 hfirst)]

theorem countFrom_skip_notMem (ha : x ∉ a) : countFrom (x :: xs) 0 (a ++ b) = countFrom (x :: xs) 0 b := by
  induction a with
  | nil => rfl
  | cons c a ih =>
    have hc : x ≠ c := List.ne_of_not_mem_cons ha
    rw [List.cons_append, countFrom_step (by simp [List.cons_prefix_cons, hc]), ih (List.not_mem_of_not_mem_cons ha)]

theorem cut_skip_notMem (ha : x ∉ a) : cut (x :: xs) (a ++ b) = (cut (x :: xs) b).map fun p => (a ++ p.1, p.2) := by
  induction a with
  | nil => simp
  | cons c a ih =>
    have hc : x ≠ c := List.ne_of_not_mem_cons ha
    rw [List.cons_append, cut_step (by simp [List.cons_prefix_cons, hc]), ih (List.not_mem_of_not_mem_cons ha)]
    simp [Function.comp_def]

/-- A text that does not hold a character does not reach past it. -/
theorem prefix_append_cons_iff (hd : d ∉ t) : t <+: a ++ d :: b ↔ t <+: a := by
  induction a generalizing t with
  | nil =>
    cases t with
    | nil => simp
    | cons c t => simp [List.cons_prefix_cons, (List.ne_of_not_mem_cons hd).symm]
  | cons c a ih =>
    cases t with
    | nil => simp
    | cons c' t => rw [List.cons_append, List.cons_prefix_cons, List.cons_prefix_cons, ih (List.not_mem_of_not_mem_cons hd)]

section
variable (hx : x ∉ xs)
include hx

theorem countFrom_cons (c : Char) (s : List Char) :
    countFrom (x :: xs) 0 (c :: s) = (if x :: xs <+: c :: s then 1 else 0) + countFrom (x :: xs) 0 s := by
  by_cases hfirst : x :: xs <+: c :: s
  · rw [if_pos hfirst]
    obtain ⟨rfl, rest, rfl⟩ := List.cons_prefix_cons.1 hfirst
    rw [← List.cons_append, countFrom_self, countFrom_skip_notMem hx]
  · rw [if_neg hfirst, countFrom_step hfirst, Nat.zero_add]

/-- Texts are counted on both sides of a character that occurrences do not reach. -/
theorem countFrom_append (hd : d ∉ xs) :
    countFrom (x :: xs) 0 (a ++ d :: b) = countFrom (x :: xs) 0 a + countFrom (x :: xs) 0 (d :: b) := by
  induction a with
  | nil => simp [countFrom]
  | cons c a ih =>
    have hreach : x :: xs <+: c :: a ++ d :: b ↔ x :: xs <+: c :: a := by
      rw [List.cons_append, List.cons_prefix_cons, List.cons_prefix_cons, prefix_append_cons_iff hd]
    rw [List.cons_append, countFrom_cons hx, ← List.cons_append, countFrom_cons hx, ih, Nat.add_assoc]
    simp only [hreach]

theorem countFrom_eq_zero_iff : countFrom (x :: xs) 0 s = 0 ↔ ¬ x :: xs <:+: s := by
  induction s with
  | nil => simp [countFrom]
  | cons c s ih =>
    rw [countFrom_cons hx, List.infix_cons_iff]
    by_cases hfirst : x :: xs <+: c :: s
    · simp [hfirst]
    · simp [hfirst, ih]

theorem cut_append (hd : d ∉ xs) (ha : countFrom (x :: xs) 0 a = 0) :
    cut (x :: xs) (a ++ d :: b) = (cut (x :: xs) (d :: b)).map fun p => (a ++ p.1, p.2) := by
  induction a with
  | nil => simp
  | cons c a ih =>
    rw [countFrom_eq_zero_iff hx, List.infix_cons_iff, not_or, ← countFrom_eq_zero_iff hx] at ha
    have hfirst : ¬ x :: xs <+: c :: (a ++ d :: b) := by
      rw [List.cons_prefix_cons, prefix_append_cons_iff hd, ← List.cons_prefix_cons]
      exact ha.1
    rw [List.cons_append, cut_step hfirst, ih ha.2]
    simp [Function.comp_def]

end

/-! ## Replaced characters -/

theorem prefix_replaceChar_iff {new : List Char} (hd : d ∉ t) (hx : x ∉ t) :
    t <+: replaceChar d (x :: new) s ↔ t <+: s := by
  induction s generalizing t with
  | nil => rfl
  | cons c s ih =>
    cases t with
    | nil => simp
    | cons c' t =>
      have hstep := ih (List.not_mem_of_not_mem_cons hd) (List.not_mem_of_not_mem_cons hx)
      rw [replaceChar] at hstep ⊢
      by_cases hc : c = d
      · simp [hc, List.cons_prefix_cons, (List.ne_of_not_mem_cons hd).symm, (List.ne_of_not_mem_cons hx).symm]
      · simp [hc, List.cons_prefix_cons, hstep]

/-- Occurrences stay if characters are replaced that they do not hold. -/
theorem countFrom_replaceChar {y : Char} {new : List Char} (hx : x ∉ xs) (hd : d ∉ x :: xs) (hy : y ∉ x :: xs)
    (hnew : x ∉ y :: new) : countFrom (x :: xs) 0 (replaceChar d (y :: new) s) = countFrom (x :: xs) 0 s := by
  induction s with
  | nil => rfl
  | cons c s ih =>
    have hreach : x :: xs <+: replaceChar d (y :: new) (c :: s) ↔ x :: xs <+: c :: s := prefix_replaceChar_iff hd hy
    rw [replaceChar, List.flatMap_cons, ← replaceChar] at hreach ⊢
    by_cases hc : c = d
    · have hfirst : ¬ x :: xs <+: c :: s := by
        intro h
        rw [(List.cons_prefix_cons.1 h).1, hc] at hd
        exact hd List.mem_cons_self
      rw [if_pos hc, countFrom_skip_notMem hnew, ih, countFrom_step hfirst]
    · rw [if_neg hc, List.singleton_append] at hreach ⊢
      rw [countFrom_cons hx, countFrom_cons hx, ih]
      simp only [hreach]

/-! ## Two texts that begin alike -/

section
variable {ys : List Char} (hapart : ∀ b, ¬ xs <+: ys ++ b)
include hapart

theorem countFrom_other (hy : x ∉ ys) : countFrom (x :: xs) 0 (x :: ys ++ b) = countFrom (x :: xs) 0 b := by
  have hfirst : ¬ x :: xs <+: x :: (ys ++ b) := fun h => hapart b (List.cons_prefix_cons.1 h).2
  rw [List.cons_append, countFrom_step hfirst, countFrom_skip_notMem hy]

theorem cut_other (hy : x ∉ ys) :
    cut (x :: xs) (x :: ys ++ b) = (cut (x :: xs) b).map fun p => (x :: ys ++ p.1, p.2) := by
  have hfirst : ¬ x :: xs <+: x :: (ys ++ b) := fun h => hapart b (List.cons_prefix_cons.1 h).2
  rw [List.cons_append, cut_step hfirst, cut_skip_notMem hy]
  simp [Function.comp_def]

end

/-- Of two occurrences the later one begins behind the end of the earlier one. -/
theorem exists_between {ys p q : List Char} (hx : x ∉ xs) (hapart : ∀ b, ¬ ys <+: xs ++ b)
    (h : a ++ (x :: xs ++ b) = p ++ (x :: ys ++ q)) (hle : a.length ≤ p.length) :
    ∃ i, p = a ++ (x :: xs ++ i) ∧ b = i ++ (x :: ys ++ q) := by
  have hsame : x :: xs ++ b ≠ x :: ys ++ q := fun h => hapart b ⟨q, (List.cons.inj h).2.symm⟩
  rcases List.append_eq_append_iff.1 h with ⟨u, rfl, hu⟩ | ⟨v, rfl, hv⟩
  · rcases List.append_eq_append_iff.1 hu with ⟨i, rfl, hi⟩ | ⟨v, hv, hq⟩
    · exact ⟨i, rfl, hi⟩
    · cases v with
      | nil => exact ⟨[], by rw [List.append_nil, hv, List.append_nil], hq.symm⟩
      | cons y v =>
        obtain rfl : x = y := (List.cons.inj hq).1
        cases u with
        | nil => exact absurd hu hsame
        -- the later one would begin inside the earlier one
        | cons y u => exact absurd (by rw [(List.cons.inj hv).2]; simp) hx
  · obtain rfl : v = [] := List.eq_nil_of_length_eq_zero (by rw [List.length_append] at hle; omega)
    exact absurd hv.symm hsame

end Text

namespace Markers

variable {m c c₁ r before inside after : String}

/-! ## Comments -/

def IsPlain (ch : Char) : Prop := ch ≠ '<' ∧ ch ≠ '\n' ∧ ch ≠ '\r'

instance : DecidablePred IsPlain := fun ch => inferInstanceAs (Decidable (ch ≠ '<' ∧ ch ≠ '\n' ∧ ch ≠ '\r'))

theorem plain_of_all {s : List Char} (h : s.all (fun ch => IsPlain ch) = true) : ∀ ch ∈ s, IsPlain ch := by
  simpa using h

def opening : List Char := "!-- classlint:".toList

def tail (m ending : String) : List Char := opening ++ m.toList ++ ending.toList

theorem toList_startComment (m : String) : (startComment m).toList = '<' :: tail m ":start -->" := by
  have hopening : "<!-- classlint:".toList = '<' :: opening := rfl
  unfold startComment
  rw [String.toList_append, String.toList_append, hopening, tail]
  simp only [List.cons_append]

theorem toList_endComment (m : String) : (endComment m).toList = '<' :: tail m ":end -->" := by
  have hopening : "<!-- classlint:".toList = '<' :: opening := rfl
  unfold endComment
  rw [String.toList_append, String.toList_append, hopening, tail]
  simp only [List.cons_append]

theorem tail_apart {ending other : String} (h : ∀ b, ¬ ending.toList <+: other.toList ++ b) (b : List Char) :
    ¬ tail m ending <+: tail m other ++ b := by
  rw [tail, tail, List.append_assoc _ other.toList, List.prefix_append_right_inj]
  exact h b

theorem start_apart (b : List Char) : ¬ tail m ":start -->" <+: tail m ":end -->" ++ b := by
  refine tail_apart (fun b hb => ?_) b
  obtain ⟨_, hb⟩ := hb
  cases hb

theorem end_apart (b : List Char) : ¬ tail m ":end -->" <+: tail m ":start -->" ++ b := by
  refine tail_apart (fun b hb => ?_) b
  obtain ⟨_, hb⟩ := hb
  cases hb

section
variable (hm : ∀ ch ∈ m.toList, IsPlain ch)
include hm

theorem plain_tail {ending : String} (hending : ∀ ch ∈ ending.toList, IsPlain ch) : ∀ ch ∈ tail m ending, IsPlain ch := by
  have hopening : ∀ ch ∈ opening, IsPlain ch := plain_of_all (by decide)
  intro ch hch
  rcases List.mem_append.1 hch with hch | hch
  · rcases List.mem_append.1 hch with hch | hch
    · exact hopening ch hch
    · exact hm ch hch
  · exact hending ch hch

theorem plain_start : ∀ ch ∈ tail m ":start -->", IsPlain ch := plain_tail hm (plain_of_all (by decide))

theorem plain_end : ∀ ch ∈ tail m ":end -->", IsPlain ch := plain_tail hm (plain_of_all (by decide))

/-! ## Documents with one block -/

theorem count_start (before inside after : String) :
    Text.count (before ++ startComment m ++ inside ++ endComment m ++ after) (startComment m) =
      Text.count before (startComment m) + Text.count inside (startComment m) + Text.count after (startComment m) + 1 := by
  have hs : '<' ∉ tail m ":start -->" := fun h => (plain_start hm _ h).1 rfl
  have he : '<' ∉ tail m ":end -->" := fun h => (plain_end hm _ h).1 rfl
  simp only [Text.count, String.toList_append, toList_startComment, toList_endComment, List.append_assoc]
  rw [List.cons_append, Text.countFrom_append hs hs, ← List.cons_append, Text.countFrom_self, List.cons_append,
    Text.countFrom_append hs hs, ← List.cons_append, Text.countFrom_other start_apart he]
  omega

theorem count_end (before inside after : String) :
    Text.count (before ++ startComment m ++ inside ++ endComment m ++ after) (endComment m) =
      Text.count before (endComment m) + Text.count inside (endComment m) + Text.count after (endComment m) + 1 := by
  have hs : '<' ∉ tail m ":start -->" := fun h => (plain_start hm _ h).1 rfl
  have he : '<' ∉ tail m ":end -->" := fun h => (plain_end hm _ h).1 rfl
  simp only [Text.count, String.toList_append, toList_startComment, toList_endComment, List.append_assoc]
  rw [List.cons_append, Text.countFrom_append he he, ← List.cons_append, Text.countFrom_other end_apart hs,
    List.cons_append, Text.countFrom_append he he, ← List.cons_append, Text.countFrom_self]
  omega

theorem cut_start (h : Text.count before (startComment m) = 0) (after : String) :
    Text.cut (startComment m).toList (before ++ startComment m ++ after).toList = some (before.toList, after.toList) := by
  have hs : '<' ∉ tail m ":start -->" := fun h => (plain_start hm _ h).1 rfl
  rw [Text.count, toList_startComment] at h
  rw [String.toList_append, String.toList_append, toList_startComment, List.append_assoc, List.cons_append,
    Text.cut_append hs hs h, ← List.cons_append, Text.cut_self]
  simp

theorem cut_end (hbefore : Text.count before (endComment m) = 0) (hinside : Text.count inside (endComment m) = 0)
    (after : String) :
    Text.cut (endComment m).toList (before ++ startComment m ++ inside ++ endComment m ++ after).toList =
      some ((before ++ startComment m ++ inside).toList, after.toList) := by
  have hs : '<' ∉ tail m ":start -->" := fun h => (plain_start hm _ h).1 rfl
  have he : '<' ∉ tail m ":end -->" := fun h => (plain_end hm _ h).1 rfl
  rw [Text.count, toList_endComment] at hbefore hinside
  simp only [String.toList_append, toList_startComment, toList_endComment, List.append_assoc]
  rw [List.cons_append, Text.cut_append he he hbefore, ← List.cons_append, Text.cut_other end_apart hs, List.cons_append,
    Text.cut_append he he hinside, ← List.cons_append, Text.cut_self]
  simp

end

/-- A document with one block of a marker, and the pieces around the comments. -/
structure Block (m c before inside after : String) : Prop where
  text : c = before ++ startComment m ++ inside ++ endComment m ++ after
  opens : Text.count c (startComment m) = 1
  closes : Text.count c (endComment m) = 1

def newline (c : String) : String := if Text.contains c "\r\n" then "\r\n" else "\n"

theorem exists_block (hm : ∀ ch ∈ (Text.trim m).toList, IsPlain ch) (h : replace c m r = .ok c₁) :
    Text.trim m ≠ "" ∧ ∃ before inside after, Block (Text.trim m) c before inside after := by
  unfold replace at h
  dsimp only at h
  by_cases hne : Text.trim m = ""
  · rw [if_pos hne] at h
    cases h
  refine ⟨hne, ?_⟩
  rw [if_neg hne] at h
  generalize Text.trim m = m at *
  split at h
  · cases h
  next honce =>
    simp only [Bool.or_eq_true, decide_eq_true_eq, not_or, not_not] at honce
    split at h
    · next front _ upToEnd back hstart hend =>
      split at h
      · cases h
      next horder =>
        have hfirst := Text.eq_of_cut hstart
        have hsecond := Text.eq_of_cut hend
        rw [hfirst, toList_startComment, toList_endComment, List.append_assoc, List.append_assoc] at hsecond
        obtain ⟨middle, rfl, rfl⟩ := Text.exists_between (fun h => (plain_start hm _ h).1 rfl) end_apart hsecond
          (Nat.not_lt.1 horder)
        refine ⟨String.ofList front, String.ofList middle, String.ofList back, ?_, honce.1, honce.2⟩
        rw [← String.toList_inj, hfirst]
        simp [toList_startComment, toList_endComment]
    · cases h

theorem Block.replace (hm : ∀ ch ∈ (Text.trim m).toList, IsPlain ch) (hne : Text.trim m ≠ "")
    (h : Block (Text.trim m) c before inside after) (r : String) :
    replace c m r = .ok (before ++ startComment (Text.trim m) ++ newline c ++ body (Text.contains c "\r\n") r ++
      newline c ++ endComment (Text.trim m) ++ after) := by
  unfold Markers.replace
  dsimp only
  rw [if_neg hne]
  generalize Text.trim m = m at *
  have hstart : Text.count before (startComment m) = 0 := by
    have hcount := h.opens
    rw [h.text, count_start hm] at hcount
    omega
  have hend : Text.count before (endComment m) = 0 ∧ Text.count inside (endComment m) = 0 := by
    have hcount := h.closes
    rw [h.text, count_end hm] at hcount
    omega
  have hcutStart : Text.cut (startComment m).toList c.toList =
      some (before.toList, (inside ++ endComment m ++ after).toList) := by
    rw [← cut_start hm hstart, h.text]
    simp only [String.append_assoc]
  have hcutEnd : Text.cut (endComment m).toList c.toList =
      some ((before ++ startComment m ++ inside).toList, after.toList) := by
    rw [← cut_end hm hend.1 hend.2, ← h.text]
  rw [h.opens, h.closes, hcutStart, hcutEnd]
  simp [newline]

/-! ## Texts filled in -/

def filled (c r : String) : String :=
  let trimmed := Text.trimEnd r (· == '\n')
  if Text.contains c "\r\n" then Text.replace trimmed '\n' "\r\n" else trimmed

/-- A text without carriage returns that holds neither comment of a marker. -/
structure Insertable (m r : String) : Prop where
  noReturn : '\r' ∉ r.toList
  noStart : Text.contains r (startComment m) = false
  noEnd : Text.contains r (endComment m) = false

theorem trimEnd_of_noReturn (hr : '\r' ∉ r.toList) :
    Text.trimEnd r (fun ch => ch == '\r' || ch == '\n') = Text.trimEnd r (· == '\n') := by
  unfold Text.trimEnd
  congr 2
  rw [← List.mem_reverse] at hr
  generalize r.toList.reverse = s at hr
  induction s with
  | nil => rfl
  | cons ch s ih =>
    have hch : (ch == '\r') = false := beq_false_of_ne (List.ne_of_not_mem_cons hr).symm
    rw [List.dropWhile_cons, List.dropWhile_cons, ih (List.not_mem_of_not_mem_cons hr), hch, Bool.false_or]

theorem toCrlf_of_noReturn {s : List Char} (hs : '\r' ∉ s) : toCrlf s = Text.replaceChar '\n' ['\r', '\n'] s := by
  fun_induction toCrlf s with
  | case1 => rfl
  | case2 => simp at hs
  | case3 s ih =>
    rw [ih (List.not_mem_of_not_mem_cons hs)]
    rfl
  | case4 ch s _ hch ih =>
    have hstep : Text.replaceChar '\n' ['\r', '\n'] (ch :: s) = ch :: Text.replaceChar '\n' ['\r', '\n'] s := by
      rw [Text.replaceChar, List.flatMap_cons, if_neg hch, List.singleton_append, Text.replaceChar]
    rw [ih (List.not_mem_of_not_mem_cons hs), hstep]

theorem toList_crlf : "\r\n".toList = ['\r', '\n'] := rfl

theorem noReturn_trimEnd (hr : '\r' ∉ r.toList) : '\r' ∉ (Text.trimEnd r (· == '\n')).toList := by
  rw [Text.trimEnd, String.toList_ofList]
  exact fun h => hr ((List.rdropWhile_prefix (p := (· == '\n')) r.toList).subset h)

theorem body_eq_filled (hr : '\r' ∉ r.toList) : body (Text.contains c "\r\n") r = filled c r := by
  unfold body filled
  dsimp only
  rw [trimEnd_of_noReturn hr, toCrlf_of_noReturn (noReturn_trimEnd hr)]
  rfl

def inner (c r : String) : String := newline c ++ filled c r ++ newline c

section
variable {xs : List Char} (hxs : ∀ ch ∈ xs, IsPlain ch)
include hxs

theorem countFrom_filled (h : ¬ '<' :: xs <:+: r.toList) : Text.countFrom ('<' :: xs) 0 (filled c r).toList = 0 := by
  have hfirst : '<' ∉ xs := fun h => (hxs _ h).1 rfl
  have hreturn : '\r' ∉ '<' :: xs := List.not_mem_cons_of_ne_of_not_mem (by decide) fun h => (hxs _ h).2.2 rfl
  have hfeed : '\n' ∉ '<' :: xs := List.not_mem_cons_of_ne_of_not_mem (by decide) fun h => (hxs _ h).2.1 rfl
  have htrimmed : Text.countFrom ('<' :: xs) 0 (Text.trimEnd r (· == '\n')).toList = 0 := by
    rw [Text.countFrom_eq_zero_iff hfirst, Text.trimEnd, String.toList_ofList]
    exact fun hin => h (hin.trans (List.rdropWhile_prefix (p := (· == '\n')) r.toList).isInfix)
  unfold filled
  dsimp only
  split
  · rw [Text.replace, String.toList_ofList, toList_crlf, Text.countFrom_replaceChar hfirst hfeed hreturn (by decide)]
    exact htrimmed
  · exact htrimmed

theorem countFrom_inner (h : ¬ '<' :: xs <:+: r.toList) : Text.countFrom ('<' :: xs) 0 (inner c r).toList = 0 := by
  have hfirst : '<' ∉ xs := fun h => (hxs _ h).1 rfl
  -- no occurrence begins in a line end or reaches into one
  have hline : ∃ d nl, (newline c).toList = d :: nl ∧ '<' ∉ d :: nl ∧ d ∉ xs := by
    unfold newline
    split
    · exact ⟨'\r', ['\n'], rfl, by decide, fun h => (hxs _ h).2.2 rfl⟩
    · exact ⟨'\n', [], rfl, by decide, fun h => (hxs _ h).2.1 rfl⟩
  obtain ⟨d, nl, hnl, hd, hreach⟩ := hline
  have hnone : Text.countFrom ('<' :: xs) 0 (d :: nl) = 0 := by
    rw [← List.append_nil (d :: nl), Text.countFrom_skip_notMem hd]
    rfl
  rw [inner, String.toList_append, String.toList_append, List.append_assoc, hnl, Text.countFrom_skip_notMem hd,
    Text.countFrom_append hfirst hreach, countFrom_filled hxs h, hnone]

end

/-! ## Line ends -/

def Unbroken (s : List Char) : Prop := s.IsChain fun a b => ¬ (a = '\r' ∧ b = '\n')

theorem contains_crlf_eq_false {s : String} : Text.contains s "\r\n" = false ↔ Unbroken s.toList := by
  rw [← Bool.not_eq_true, Text.contains_iff, toList_crlf, Unbroken, List.isChain_iff_forall_rel_of_append_cons_cons]
  constructor
  · rintro h a b front back hs ⟨rfl, rfl⟩
    exact h ⟨front, back, by simp [hs]⟩
  · rintro h ⟨front, back, hs⟩
    have hsplit : s.toList = front ++ '\r' :: '\n' :: back := by simp [← hs]
    exact h hsplit ⟨rfl, rfl⟩

theorem unbroken_of_noReturn {s : List Char} (hs : '\r' ∉ s) : Unbroken s := by
  refine List.isChain_iff_forall_rel_of_append_cons_cons.2 fun a b front back hsplit hcrlf => hs ?_
  rw [hsplit, hcrlf.1]
  simp

theorem noReturn_inner (hr : '\r' ∉ r.toList) (hc : Text.contains c "\r\n" = false) : '\r' ∉ (inner c r).toList := by
  have hnewline : newline c = "\n" := by rw [newline, hc]; rfl
  have hfilled : filled c r = Text.trimEnd r (· == '\n') := by rw [filled, hc]; rfl
  rw [inner, hnewline, hfilled, String.toList_append, String.toList_append]
  simp only [List.mem_append, not_or]
  exact ⟨⟨by decide, noReturn_trimEnd hr⟩, by decide⟩

/-- A document has the same kind of line ends when its block is filled in. -/
theorem contains_crlf_inner (hr : '\r' ∉ r.toList) (hc : c = before ++ startComment m ++ inside ++ endComment m ++ after) :
    Text.contains (before ++ startComment m ++ inner c r ++ endComment m ++ after) "\r\n" = Text.contains c "\r\n" := by
  cases hcrlf : Text.contains c "\r\n" with
  | true =>
    rw [Text.contains_iff]
    refine ⟨(before ++ startComment m).toList, (filled c r ++ newline c ++ endComment m ++ after).toList, ?_⟩
    have hnewline : newline c = "\r\n" := if_pos hcrlf
    simp only [inner, hnewline, String.toList_append, List.append_assoc]
  | false =>
    have hinner := unbroken_of_noReturn (noReturn_inner hr hcrlf)
    rw [contains_crlf_eq_false] at hcrlf ⊢
    have hlast : (before ++ startComment m).toList.getLast? = some '>' := by
      have hend : before ++ startComment m = before ++ ("<!-- classlint:" ++ m) ++ ":start -->" :=
        (String.append_assoc ..).symm
      rw [hend, String.toList_append, List.getLast?_append]
      rfl
    have hhead : (endComment m ++ after).toList.head? = some '<' := by
      rw [String.toList_append, toList_endComment]
      rfl
    have hfront : Unbroken (before ++ startComment m).toList :=
      hcrlf.infix ⟨[], (inside ++ endComment m ++ after).toList, by rw [hc]; simp⟩
    have hback : Unbroken (endComment m ++ after).toList :=
      hcrlf.infix ⟨(before ++ startComment m ++ inside).toList, [], by rw [hc]; simp⟩
    -- a line feed comes right behind the start comment, but that does not end in a carriage return
    have hpieces : (before ++ startComment m ++ inner c r ++ endComment m ++ after).toList =
        (before ++ startComment m).toList ++ ((inner c r).toList ++ (endComment m ++ after).toList) := by simp
    rw [hpieces, Unbroken, List.isChain_append, List.isChain_append, hlast, hhead]
    refine ⟨hfront, ⟨hinner, hback, ?_⟩, ?_⟩
    · rintro _ _ _ ⟨⟩ ⟨_, hfeed⟩
      exact absurd hfeed (by decide)
    · rintro _ ⟨⟩ _ _ ⟨hreturn, _⟩
      exact absurd hreturn (by decide)

/-! ## Summaries -/

/-- A text of which nothing can be taken for a comment or for the end of a line of another kind. -/
def Quiet (s : String) : Prop := '<' ∉ s.toList ∧ '\r' ∉ s.toList

instance (s : String) : Decidable (Quiet s) := inferInstanceAs (Decidable ('<' ∉ s.toList ∧ '\r' ∉ s.toList))

theorem quiet_append {s t : String} : Quiet (s ++ t) ↔ Quiet s ∧ Quiet t := by
  simp only [Quiet, String.toList_append, List.mem_append, not_or]
  exact and_and_and_comm

theorem quiet_join {l : List String} (h : ∀ s ∈ l, Quiet s) : Quiet (String.join l) := by
  simp only [Quiet, String.toList_join, List.mem_flatMap, not_exists, not_and]
  exact ⟨fun s hs => (h s hs).1, fun s hs => (h s hs).2⟩

theorem quiet_nat (n : Nat) : Quiet (toString n) := by
  have hdigits : ∀ ch ∈ (toString n).toList, ch.isDigit = true := by
    intro ch hch
    rw [Nat.toString_eq_ofList_toDigits, String.toList_ofList] at hch
    exact Nat.isDigit_of_mem_toDigits (by decide) (by decide) hch
  exact ⟨fun h => absurd (hdigits _ h) (by decide), fun h => absurd (hdigits _ h) (by decide)⟩

theorem quiet_int (n : Int) : Quiet (toString n) := by
  cases n with
  | ofNat n => exact quiet_nat n
  | negSucc n => exact quiet_append.2 ⟨by decide, quiet_nat (n + 1)⟩

theorem insertable_of_quiet (h : Quiet r) : Insertable m r := by
  have hnone : ∀ {comment : String} {xs : List Char}, comment.toList = '<' :: xs → Text.contains r comment = false := by
    intro comment xs hcomment
    rw [← Bool.not_eq_true, Text.contains_iff, hcomment]
    exact fun hin => h.1 (hin.subset List.mem_cons_self)
  exact ⟨h.2, hnone (toList_startComment m), hnone (toList_endComment m)⟩

theorem quiet_totals (rep : Report) : Quiet (Markdown.totals rep) := by
  unfold Markdown.totals
  simp only [quiet_append, quiet_nat, quiet_int, and_true]
  decide

theorem quiet_countTable {counts : List CheckCount} (h : ∀ n ∈ counts, Quiet n.name ∧ Quiet n.category.name) :
    Quiet (Markdown.countTable counts) := by
  have hrow : ∀ n ∈ counts,
      Quiet ("| " ++ n.name ++ " | " ++ n.category.name ++ " | " ++ toString n.count ++ " |\n") := by
    intro n hn
    obtain ⟨hname, hcategory⟩ := h n hn
    simp only [quiet_append, quiet_nat, hname, hcategory, and_true]
    decide
  unfold Markdown.countTable
  split
  · decide
  · have hrows : Quiet (String.join (counts.map fun n =>
        "| " ++ n.name ++ " | " ++ n.category.name ++ " | " ++ toString n.count ++ " |\n")) :=
      quiet_join (by simpa using hrow)
    exact quiet_append.2 ⟨quiet_append.2 ⟨by decide, hrows⟩, by decide⟩

theorem quiet_summary {rep : Report} (h : ∀ f ∈ rep.findings, Quiet f.checkName ∧ Quiet f.category.name) :
    Quiet (Markdown.summary rep) := by
  have hcounts : ∀ n ∈ checkCounts rep.findings, Quiet n.name ∧ Quiet n.category.name := by
    intro n hn
    simp only [checkCounts_eq, List.mem_mergeSort, List.mem_map, mem_dedup] at hn
    obtain ⟨_, ⟨f, hf, rfl⟩, rfl⟩ := hn
    refine ⟨(h f hf).1, ?_⟩
    simp only [entryOf]
    cases hfirst : (rep.findings.filter (·.checkName == f.checkName)).head? with
    | none => exact (by decide : Quiet "")
    | some g => exact (h g (List.mem_filter.1 (List.mem_of_head? hfirst)).1).2
  have hsection : Quiet (Markdown.summarySection rep) := quiet_append.2 ⟨quiet_totals rep, quiet_countTable hcounts⟩
  have hpart : (Markdown.summary rep).toList <+: (Markdown.summarySection rep).toList := by
    rw [Markdown.summary, Text.trimEnd, String.toList_ofList]
    exact List.rdropWhile_prefix (p := (· == '\n')) _
  exact ⟨fun hin => hsection.1 (hpart.subset hin), fun hin => hsection.2 (hpart.subset hin)⟩

/-! ## The last text stays -/

section
variable (hm : ∀ ch ∈ m.toList, IsPlain ch)
include hm

/-- Filling a block in leaves a document with one block, around the new text. -/
theorem Block.fill (h : Block m c before inside after) (hr : Insertable m r) :
    Block m (before ++ startComment m ++ inner c r ++ endComment m ++ after) before (inner c r) after := by
  have hnone : ∀ {comment : String}, Text.contains r comment = false → ¬ comment.toList <:+: r.toList := by
    intro comment hfree
    rw [← Text.contains_iff, hfree]
    decide
  have hstart : Text.count (inner c r) (startComment m) = 0 := by
    have hfree := hnone hr.noStart
    rw [toList_startComment] at hfree
    rw [Text.count, toList_startComment]
    exact countFrom_inner (plain_start hm) hfree
  have hend : Text.count (inner c r) (endComment m) = 0 := by
    have hfree := hnone hr.noEnd
    rw [toList_endComment] at hfree
    rw [Text.count, toList_endComment]
    exact countFrom_inner (plain_end hm) hfree
  obtain ⟨htext, hopens, hcloses⟩ := h
  rw [htext, count_start hm] at hopens
  rw [htext, count_end hm] at hcloses
  refine ⟨rfl, ?_, ?_⟩
  · rw [count_start hm, hstart]
    omega
  · rw [count_end hm, hend]
    omega

theorem plain_trim : ∀ ch ∈ (Text.trim m).toList, IsPlain ch := by
  intro ch hch
  rw [Text.trim, String.toList_ofList] at hch
  exact hm ch ((Text.trimList_sublist _ _).subset hch)

end

section
variable (hm : ∀ ch ∈ (Text.trim m).toList, IsPlain ch)
include hm

theorem filled_of_replace (hr : Insertable (Text.trim m) r) (h : replace c m r = .ok c₁) :
    Text.trim m ≠ "" ∧ ∃ before inside after, Block (Text.trim m) c before inside after ∧
      c₁ = before ++ startComment (Text.trim m) ++ inner c r ++ endComment (Text.trim m) ++ after := by
  obtain ⟨hne, before, inside, after, hblock⟩ := exists_block hm h
  refine ⟨hne, before, inside, after, hblock, ?_⟩
  rw [hblock.replace hm hne, body_eq_filled hr.noReturn] at h
  rw [← Except.ok.inj h, inner]
  simp only [String.append_assoc]

/-- What is filled in next does not see what was filled in before. -/
theorem replace_filled (hr : Insertable (Text.trim m) r) (h : replace c m r = .ok c₁) (r₂ : String) :
    replace c₁ m r₂ = replace c m r₂ := by
  obtain ⟨hne, before, inside, after, hblock, hc₁⟩ := filled_of_replace hm hr h
  have hcrlf : Text.contains c₁ "\r\n" = Text.contains c "\r\n" := by
    rw [hc₁]
    exact contains_crlf_inner hr.noReturn hblock.text
  have hfilled := hblock.fill hm hr
  rw [← hc₁] at hfilled
  rw [hfilled.replace hm hne, hblock.replace hm hne, newline, newline, hcrlf]

end

/-- Filling a block in touches nothing but the text between its comments, and a text that is filled in afterwards takes
its place as if it had not been there. So filling in the same text once more changes nothing, be it the summary of a
report. -/
theorem last_filling_stays {c m r c₁ : String} (hm : ∀ ch ∈ m.toList, IsPlain ch) (hr : Insertable (Text.trim m) r)
    (h : replace c m r = .ok c₁) :
    (∃ before inside after, Block (Text.trim m) c before inside after ∧
      c₁ = before ++ startComment (Text.trim m) ++ newline c ++ filled c r ++ newline c ++ endComment (Text.trim m) ++ after) ∧
    (∀ r₂, ∃ c₂, replace c₁ m r₂ = .ok c₂ ∧ replace c m r₂ = .ok c₂) ∧
    replace c₁ m r = .ok c₁ ∧
    (∀ rep : Report, (∀ f ∈ rep.findings, Quiet f.checkName ∧ Quiet f.category.name) →
      ∃ c₂, replace c₁ m (Markdown.summary rep) = .ok c₂ ∧ replace c₂ m (Markdown.summary rep) = .ok c₂) := by
  have hplain := plain_trim hm
  obtain ⟨hne, before, inside, after, hblock, hc₁⟩ := filled_of_replace hplain hr h
  have hagain := replace_filled hplain hr h
  have hsucceeds : ∀ r₂, ∃ c₂, replace c₁ m r₂ = .ok c₂ ∧ replace c m r₂ = .ok c₂ :=
    fun r₂ => ⟨_, (hagain r₂).trans (hblock.replace hplain hne r₂), hblock.replace hplain hne r₂⟩
  refine ⟨⟨before, inside, after, hblock, ?_⟩, hsucceeds, (hagain r).trans h, fun rep hrep => ?_⟩
  · rw [hc₁, inner]
    simp only [String.append_assoc]
  · obtain ⟨c₂, hc₂, -⟩ := hsucceeds (Markdown.summary rep)
    exact ⟨c₂, hc₂, (replace_filled hplain (insertable_of_quiet (quiet_summary hrep)) hc₂ _).trans hc₂⟩

def mixedDocument : String :=
  "Totals:\n<!-- classlint:totals:start -->\r\nold\r\n<!-- classlint:totals:end -->\nThe rest.\n"

def filledDocument : String :=
  "Totals:\n<!-- classlint:totals:start -->\r\none\r\ntwo\r\n<!-- classlint:totals:end -->\nThe rest.\n"

theorem last_filling_stays_mixedDocument :
    replace mixedDocument " totals " "one\ntwo\n\n" = .ok filledDocument ∧
    replace filledDocument " totals " "one\ntwo\n\n" = .ok filledDocument := by
  have hfill : replace mixedDocument " totals " "one\ntwo\n\n" = .ok filledDocument := by rfl
  have hstays := last_filling_stays (m := " totals ") (plain_of_all (by decide))
    ⟨by decide, by decide, by decide⟩ hfill
  exact ⟨hfill, hstays.2.2.1⟩

end Markers

end JvmLint
