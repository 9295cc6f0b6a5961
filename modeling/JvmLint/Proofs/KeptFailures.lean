import JvmLint.Proofs.Reading

/-!
# Kept failures

A scan goes on after a failure, and its tape keeps the failure until it is
checked. `Agrees` compares a scan with a reader that fails at once: where the
reader fails, the scan throws the same failure or its tape keeps it. What comes
after a scan has to pass a kept failure on (`Tracks`), and a check turns
agreement into equality (`Reads`). An index that is cut off is looked up as
number 0 all the same, so there the scan throws something else than what its
tape keeps; then the reader is one with `Reader.index` (`Reads.index_bind`).
-/

namespace JvmLint.ClassFile

def Cursor.tape (c : Cursor) : Tape := { toCursor := c }

section
variable {α β γ : Type} {told note : Malformed → Malformed}

/-- How a scan may end where a reader ends: with the same, with the reader's failure as it is `told`, or
with a failure kept by its tape that is `note`d to the same. -/
inductive Follows (told note : Malformed → Malformed) :
    Except Malformed (α × Tape) → Except Malformed (α × Cursor) → Prop
  | ok (a : α) (c : Cursor) : Follows told note (.ok (a, c.tape)) (.ok (a, c))
  | thrown (e : Malformed) : Follows told note (.error (told e)) (.error e)
  | kept {a : α} {t : Tape} {e e' : Malformed} (hkept : t.fault = some e') (htold : note e' = told e) :
    Follows told note (.ok (a, t)) (.error e)

def Agrees (told note : Malformed → Malformed) (s : Scan α) (r : Reader α) : Prop :=
  ∀ c : Cursor, Follows told note (s c.tape) (r c)

/-- From a tape without a failure the scan does what the reader does, and leaves no failure behind. -/
def Reads (told : Malformed → Malformed) (s : Scan α) (r : Reader α) : Prop :=
  ∀ c : Cursor, s c.tape = match r c with
    | .ok (a, c') => .ok (a, c'.tape)
    | .error e => .error (told e)

/-- A failure that the tape keeps is still there at the end, or is thrown as it is `note`d. -/
def Keeps (note : Malformed → Malformed) (s : Scan α) : Prop :=
  ∀ t e, t.fault = some e → s t = .error (note e) ∨ ∃ a t', s t = .ok (a, t') ∧ t'.fault = some e

structure Tracks (told note : Malformed → Malformed) (s : Scan α) (r : Reader α) : Prop where
  agrees : Agrees told note s r
  keeps : Keeps note s

/-! ## Sequences -/

theorem Reads.of_ok {s : Scan α} {r : Reader α} (h : Reads told s r) {c c' : Cursor} {a : α} (hr : r c = .ok (a, c')) :
    s c.tape = .ok (a, c'.tape) := by
  rw [h c, hr]

theorem Reads.of_error {s : Scan α} {r : Reader α} (h : Reads told s r) {c : Cursor} {e : Malformed}
    (hr : r c = .error e) : s c.tape = .error (told e) := by
  rw [h c, hr]

theorem Reads.ok_of {s : Scan α} {r : Reader α} (h : Reads told s r) {c : Cursor} {t : Tape} {a : α}
    (hs : s c.tape = .ok (a, t)) : ∃ c', t = Cursor.tape c' ∧ r c = .ok (a, c') := by
  rw [h c] at hs
  generalize r c = o at hs
  cases o with
  | ok p => cases hs; exact ⟨p.2, rfl, rfl⟩
  | error e => cases hs

theorem Reads.agrees {s : Scan α} {r : Reader α} (h : Reads told s r) : Agrees told note s r := by
  intro c
  cases hr : r c with
  | ok p => rw [h.of_ok hr]; exact .ok p.1 p.2
  | error e => rw [h.of_error hr]; exact .thrown e

theorem reads_pure (a : α) : Reads told (pure a) (pure a) := fun _ => rfl

theorem Reads.bind {s : Scan α} {r : Reader α} {f : α → Scan β} {g : α → Reader β} (hs : Reads told s r)
    (hf : ∀ a, Reads told (f a) (g a)) : Reads told (s >>= f) (r >>= g) := by
  intro c
  cases hr : r c with
  | ok p => rw [bind_ok (hs.of_ok hr), bind_ok hr, hf p.1 p.2]
  | error e => rw [bind_error (hs.of_error hr), bind_error hr]

/-- What follows may see a value in another form than the reader has it. -/
theorem Reads.bind_image {s : Scan α} {r : Reader γ} {f : α → Scan β} {g : γ → Reader β} {image : γ → α}
    (hs : Reads told s (image <$> r)) (hf : ∀ x, Reads told (f (image x)) (g x)) : Reads told (s >>= f) (r >>= g) := by
  intro c
  cases hr : r c with
  | ok p =>
    have hmap : (image <$> r) c = .ok (image p.1, p.2) := by rw [map_apply, hr]
    rw [bind_ok (hs.of_ok hmap), bind_ok hr]
    exact hf p.1 p.2
  | error e =>
    have hmap : (image <$> r) c = .error e := by rw [map_apply, hr]
    rw [bind_error (hs.of_error hmap), bind_error hr]

theorem Reads.bind_agrees {s : Scan α} {r : Reader α} {f : α → Scan β} {g : α → Reader β} (hs : Reads told s r)
    (hf : ∀ a, Agrees told note (f a) (g a)) : Agrees told note (s >>= f) (r >>= g) := by
  intro c
  cases hr : r c with
  | ok p => rw [bind_ok (hs.of_ok hr), bind_ok hr]; exact hf p.1 p.2
  | error e => rw [bind_error (hs.of_error hr), bind_error hr]; exact .thrown e

/-- What follows may use more of a value than the reader has of it. -/
theorem Agrees.bind_view {s : Scan α} {r : Reader γ} {f : α → Scan β} {g : γ → Reader β} (view : α → γ)
    (hs : Agrees told note (view <$> s) r) (hf : ∀ a, Tracks told note (f a) (g (view a))) :
    Agrees told note (s >>= f) (r >>= g) := by
  intro c
  have hc := hs c
  rw [map_apply] at hc
  cases hsc : s c.tape with
  | error e =>
    rw [hsc] at hc
    rw [bind_error hsc]
    generalize hrc : r c = o at hc
    cases hc with
    | thrown e => rw [bind_error hrc]; exact .thrown e
  | ok p =>
    obtain ⟨a, t⟩ := p
    rw [hsc] at hc
    rw [bind_ok hsc]
    generalize hrc : r c = o at hc
    cases hc with
    | ok _ c' => rw [bind_ok hrc]; exact (hf a).agrees c'
    | kept hkept htold =>
      rw [bind_error hrc]
      rcases (hf a).keeps t _ hkept with hthrow | ⟨b, t', hok, hkept'⟩
      · rw [hthrow, htold]; exact .thrown _
      · rw [hok]; exact .kept hkept' htold

theorem Agrees.bind {s : Scan α} {r : Reader α} {f : α → Scan β} {g : α → Reader β} (hs : Agrees told note s r)
    (hf : ∀ a, Tracks told note (f a) (g a)) : Agrees told note (s >>= f) (r >>= g) := by
  refine Agrees.bind_view id ?_ hf
  rwa [id_map]

/-- A check leaves no failure behind. -/
theorem Agrees.checkedAs {s : Scan α} {r : Reader α} (h : Agrees told note s r) :
    Reads told (Scan.checkedAs note s) r := by
  intro c
  have hc := h c
  unfold Scan.checkedAs
  cases hs : s c.tape with
  | error e =>
    rw [bind_error hs]
    rw [hs] at hc
    generalize r c = o at hc
    cases hc; rfl
  | ok p =>
    obtain ⟨a, t⟩ := p
    rw [bind_ok hs]
    rw [hs] at hc
    generalize r c = o at hc
    cases hc with
    | ok _ c' => rfl
    | kept hkept htold =>
      refine (bind_ok (show (get : Scan Tape) t = .ok (t, t) from rfl)).trans ?_
      rw [hkept]
      exact congrArg Except.error htold

theorem Agrees.checked {s : Scan α} {r : Reader α} (h : Agrees told id s r) : Reads told (Scan.checked s) r :=
  h.checkedAs

/-! ## Passing failures on -/

theorem keeps_pure (a : α) : Keeps note (pure a) := fun t _ h => .inr ⟨a, t, rfl, h⟩

theorem Keeps.bind {s : Scan α} {f : α → Scan β} (hs : Keeps note s) (hf : ∀ a, Keeps note (f a)) :
    Keeps note (s >>= f) := by
  intro t e h
  rcases hs t e h with hthrow | ⟨a, t', hok, h'⟩
  · exact .inl (bind_error hthrow)
  · rw [bind_ok hok]; exact hf a t' e h'

/-- A scan that a failure makes do nothing. -/
theorem Keeps.still {s : Scan α} (h : ∀ t e, t.fault = some e → ∃ a, s t = .ok (a, t)) : Keeps note s := by
  intro t e he
  obtain ⟨a, ha⟩ := h t e he
  exact .inr ⟨a, t, ha, he⟩

theorem tracks_pure (a : α) : Tracks told note (pure a) (pure a) := ⟨(reads_pure a).agrees, keeps_pure a⟩

theorem Keeps.of_map {s : Scan α} {view : α → γ} (h : Keeps note (view <$> s)) : Keeps note s := by
  intro t e he
  have ht := h t e he
  rw [map_apply] at ht
  generalize s t = o at ht
  cases o with
  | error e' =>
    rcases ht with hthrow | ⟨_, _, hok, _⟩
    · cases hthrow; exact .inl rfl
    · cases hok
  | ok p =>
    rcases ht with hthrow | ⟨_, t', hok, hkept⟩
    · cases hthrow
    · cases hok; exact .inr ⟨p.1, p.2, rfl, hkept⟩

theorem Tracks.bind_view {s : Scan α} {r : Reader γ} {f : α → Scan β} {g : γ → Reader β} (view : α → γ)
    (hs : Tracks told note (view <$> s) r) (hf : ∀ a, Tracks told note (f a) (g (view a))) :
    Tracks told note (s >>= f) (r >>= g) :=
  ⟨Agrees.bind_view view hs.agrees hf, hs.keeps.of_map.bind fun a => (hf a).keeps⟩

theorem Tracks.bind {s : Scan α} {r : Reader α} {f : α → Scan β} {g : α → Reader β} (hs : Tracks told note s r)
    (hf : ∀ a, Tracks told note (f a) (g a)) : Tracks told note (s >>= f) (r >>= g) :=
  ⟨hs.agrees.bind hf, hs.keeps.bind fun a => (hf a).keeps⟩

theorem Tracks.map {s : Scan α} {r : Reader α} (h : Tracks told note s r) (f : α → β) :
    Tracks told note (f <$> s) (f <$> r) := by
  rw [← bind_pure_comp, ← bind_pure_comp]
  exact h.bind fun a => tracks_pure (f a)

theorem Tracks.ite {p : Prop} [Decidable p] {s s' : Scan α} {r r' : Reader α} (h : Tracks told note s r)
    (h' : Tracks told note s' r') : Tracks told note (if p then s else s') (if p then r else r') := by
  split
  · exact h
  · exact h'

/-! ## Single reads -/

def TellsEnd (told note : Malformed → Malformed) : Prop :=
  ∀ n k details, told ⟨.endOfData n k, details⟩ = note ⟨.endOfData n k, details⟩

theorem tellsEnd_refl (note : Malformed → Malformed) : TellsEnd note note := fun _ _ _ => rfl

theorem tellsEnd_id : TellsEnd id id := tellsEnd_refl id

theorem tracks_fail {d : Defect} (h : ∀ details, told ⟨d, details⟩ = note ⟨d, details⟩) (a : α) :
    Tracks told note (do Scan.fail d; return a) (Reader.fail d) := by
  refine ⟨fun c => .kept rfl (h _).symm, Keeps.still fun t e ht => ⟨a, ?_⟩⟩
  have hstill : Scan.fail d t = .ok ((), t) := by simp [Scan.fail, Tape.fail, ht]
  exact bind_ok hstill

theorem word_of_fault {n : Nat} {t : Tape} {e : Malformed} (h : t.fault = some e) : Scan.word n t = .ok (0, t) := by
  simp only [Scan.word, Tape.word, Tape.bytes_of_fault h]
  rfl

theorem tracks_bytes (h : TellsEnd told note) (n : Nat) : Tracks told note (Scan.bytes n) (Reader.bytes n) := by
  constructor
  · intro c
    rw [bytes_apply]
    unfold Scan.bytes
    by_cases hn : n ≤ c.rest.length
    · rw [if_pos hn, Tape.bytes_of_le rfl hn]
      exact .ok _ { rest := c.rest.drop n, pos := c.pos + n }
    · rw [if_neg hn, Tape.bytes_of_lt rfl (Nat.lt_of_not_le hn)]
      exact .kept rfl (h _ _ _).symm
  · exact Keeps.still fun _ _ h => ⟨[], by simp only [Scan.bytes, Tape.bytes_of_fault h]⟩

theorem tracks_skip (h : TellsEnd told note) (n : Nat) : Tracks told note (Scan.skip n) (Reader.skip n) :=
  (tracks_bytes h n).bind fun _ => tracks_pure ()

theorem tracks_word (h : TellsEnd told note) (n : Nat) : Tracks told note (Scan.word n) (Reader.word n) :=
  (tracks_bytes h n).map wordOf

theorem tracks_u1 (h : TellsEnd told note) : Tracks told note Scan.u1 Reader.u1 := tracks_word h 1

theorem tracks_u2 (h : TellsEnd told note) : Tracks told note Scan.u2 Reader.u2 := tracks_word h 2

theorem tracks_u4 (h : TellsEnd told note) : Tracks told note Scan.u4 Reader.u4 := tracks_word h 4

theorem word_tape_of_le {n : Nat} {c : Cursor} (h : n ≤ c.rest.length) :
    ∃ w c', Scan.word n c.tape = .ok (w, Cursor.tape c') ∧ Reader.word n c = .ok (w, c') := by
  refine ⟨wordOf (c.rest.take n), ⟨c.rest.drop n, c.pos + n⟩, ?_, ?_⟩
  · simp only [Scan.word, Tape.word, Tape.bytes_of_le (t := c.tape) rfl h]
    rfl
  · refine (bind_ok ?_).trans rfl
    rw [bytes_apply, if_pos h]

theorem word_tape_of_lt {n : Nat} {c : Cursor} (h : c.rest.length < n) :
    ∃ t details, Scan.word n c.tape = .ok (0, t) ∧ t.fault = some ⟨.endOfData n c.rest.length, details⟩ ∧
      Reader.word n c = .error ⟨.endOfData n c.rest.length, details⟩ := by
  refine ⟨c.tape.fail (.endOfData n c.rest.length), [("offset", toString c.pos)], ?_, rfl, ?_⟩
  · simp only [Scan.word, Tape.word, Tape.bytes_of_lt (t := c.tape) rfl h]
    rfl
  · refine bind_error ?_
    rw [bytes_apply, if_neg (Nat.not_le_of_lt h)]
    rfl

theorem u2_tape_of_le {c : Cursor} (h : 2 ≤ c.rest.length) :
    ∃ n c', Scan.u2 c.tape = .ok (n, Cursor.tape c') ∧ Reader.u2 c = .ok (n, c') := word_tape_of_le h

theorem u2_tape_of_lt {c : Cursor} (h : c.rest.length < 2) :
    ∃ t details, Scan.u2 c.tape = .ok (0, t) ∧ t.fault = some ⟨.endOfData 2 c.rest.length, details⟩ ∧
      Reader.u2 c = .error ⟨.endOfData 2 c.rest.length, details⟩ := word_tape_of_lt h

/-- A word that is cut off reads as 0, so only that has to pass the failure on. -/
theorem Tracks.word_bind (h : TellsEnd told note) (n : Nat) {f : Nat → Scan α} {g : Nat → Reader α}
    (hf : ∀ w, Agrees told note (f w) (g w)) (hk : Keeps note (f 0)) :
    Tracks told note (Scan.word n >>= f) (Reader.word n >>= g) := by
  refine ⟨fun c => ?_, fun t e ht => by rw [bind_ok (word_of_fault ht)]; exact hk t e ht⟩
  by_cases hn : n ≤ c.rest.length
  · obtain ⟨w, c', hs, hr⟩ := word_tape_of_le hn
    rw [bind_ok hs, bind_ok hr]
    exact hf w c'
  · obtain ⟨t, details, hs, hkept, hr⟩ := word_tape_of_lt (Nat.lt_of_not_le hn)
    rw [bind_ok hs, bind_error hr]
    rcases hk t _ hkept with hthrow | ⟨a, t', hok, hkept'⟩
    · rw [hthrow, ← h]; exact .thrown _
    · rw [hok]; exact .kept hkept' (h _ _ _).symm

theorem tracks_i2 (h : TellsEnd told note) : Tracks told note (Int16.toInt <$> Scan.i2) Reader.i2 := by
  have hview : Int16.toInt <$> Scan.i2 = (fun n : Nat => Int.bmod n 0x10000) <$> Scan.u2 := by
    unfold Scan.i2
    rw [bind_pure_comp, Functor.map_map]
    exact congrArg (· <$> Scan.u2) (funext fun n => BitVec.toInt_ofNat' n)
  rw [hview]
  exact (tracks_u2 h).map _

theorem tracks_i4 (h : TellsEnd told note) : Tracks told note (Int32.toInt <$> Scan.i4) Reader.i4 := by
  have hmap : Scan.i4 = (fun n : Nat => n.toUInt32.toInt32) <$> Scan.u4 := rfl
  have hview : Int32.toInt <$> Scan.i4 = (fun n : Nat => Int.bmod n 0x100000000) <$> Scan.u4 := by
    rw [hmap, Functor.map_map]
    exact congrArg (· <$> Scan.u4) (funext fun n => BitVec.toInt_ofNat' n)
  rw [hview]
  exact (tracks_u4 h).map _

/-! ## Loops -/

/-- What is not run after a failure need not pass it on. -/
theorem Agrees.unlessFailed {s : Scan α} {r : Reader α} (h : Agrees told note s r) (otherwise : α) :
    Tracks told note (Scan.unlessFailed otherwise s) r := by
  refine ⟨fun c => h c, Keeps.still fun t e ht => ⟨otherwise, ?_⟩⟩
  refine (bind_ok (show (get : Scan Tape) t = .ok (t, t) from rfl)).trans ?_
  rw [ht]
  rfl

theorem Agrees.each {s : Scan α} {r : Reader α} (h : Agrees told note s r) :
    ∀ n, Tracks told note (Scan.each n s) (Reader.times n r)
  | 0 => tracks_pure []
  | n + 1 => (h.bind fun a => (h.each n).bind fun as => tracks_pure (a :: as)).unlessFailed []

theorem map_unlessFailed (f : α → β) (otherwise : α) (s : Scan α) :
    f <$> Scan.unlessFailed otherwise s = Scan.unlessFailed (f otherwise) (f <$> s) := by
  unfold Scan.unlessFailed
  rw [map_bind]
  refine bind_congr fun t => ?_
  split <;> rfl

theorem map_each (f : α → β) (s : Scan α) : ∀ n, List.map f <$> Scan.each n s = Scan.each n (f <$> s)
  | 0 => rfl
  | n + 1 => by
    unfold Scan.each
    rw [map_unlessFailed]
    simp [← map_each f s n]

theorem Tracks.times {s : Scan α} {r : Reader α} (h : Tracks told note s r) :
    ∀ n, Tracks told note (Scan.times n s) (Reader.times n r)
  | 0 => tracks_pure []
  | n + 1 => h.bind fun a => (h.times n).bind fun as => tracks_pure (a :: as)

theorem Agrees.iterate {step : α → Scan α} {step' : α → Reader α} (h : ∀ a, Agrees told note (step a) (step' a)) :
    ∀ n a, Tracks told note (Scan.iterate step n a) (ClassFile.iterate step' n a)
  | 0, a => tracks_pure a
  | n + 1, a => ((h a).bind fun b => Agrees.iterate h n b).unlessFailed a

theorem Agrees.counted {s : Scan α} {r : Reader α} (ht : TellsEnd told note) (h : Agrees told note s r) :
    Tracks told note (Scan.counted s) (ClassFile.counted r) :=
  (tracks_u2 ht).bind fun n => h.each n

/-! ## Lookups -/

theorem reads_constant (found : Except Defect α) : Reads id (Scan.constant found) (Reader.constant found) := by
  intro c
  cases found <;> rfl

/-- Both are refused alike: the scan on every tape with a failure, the reader where an index is cut off. -/
def Refuses (told : Malformed → Malformed) (s : Scan α) (r : Reader α) : Prop :=
  ∃ e, (∀ t, t.fault ≠ none → s t = .error (told e)) ∧ ∀ c : Cursor, c.rest.length < 2 → r c = .error e

theorem Refuses.bind {s : Scan α} {r : Reader α} (h : Refuses told s r) (f : α → Scan β) (g : α → Reader β) :
    Refuses told (s >>= f) (r >>= g) := by
  obtain ⟨e, hs, hr⟩ := h
  exact ⟨e, fun t ht => bind_error (hs t ht), fun c hc => bind_error (hr c hc)⟩

theorem refuses_constant {found : Except Defect α} {d : Defect} (h : found = .error d) :
    Refuses id (Scan.constant found) (Reader.constant found) := by
  subst h
  exact ⟨_, fun _ _ => rfl, fun _ _ => rfl⟩

theorem u2_of_fault {t : Tape} (h : t.fault ≠ none) : Scan.u2 t = .ok (0, t) := by
  obtain ⟨e, he⟩ := Option.ne_none_iff_exists'.mp h
  exact word_of_fault he

theorem Refuses.index_bind {f : Nat → Scan α} {g : Nat → Reader α} (h : Refuses told (f 0) (g 0)) :
    Refuses told (Scan.u2 >>= f) (Reader.index >>= g) := by
  obtain ⟨e, hs, hr⟩ := h
  refine ⟨e, fun t ht => ?_, fun c hc => ?_⟩
  · rw [bind_ok (u2_of_fault ht)]; exact hs t ht
  · rw [bind_ok (index_short hc)]; exact hr c hc

/-- An index that is cut off is looked up as 0, and what follows refuses that. -/
theorem Agrees.index_bind {f : Nat → Scan α} {g : Nat → Reader α} (hf : ∀ i, Agrees told note (f i) (g i))
    (h0 : Refuses told (f 0) (g 0)) : Agrees told note (Scan.u2 >>= f) (Reader.index >>= g) := by
  intro c
  by_cases hc : 2 ≤ c.rest.length
  · obtain ⟨n, c', hs, hr⟩ := u2_tape_of_le hc
    rw [bind_ok hs, bind_ok (index_of_u2 hr)]
    exact hf n c'
  · have hlt := Nat.lt_of_not_le hc
    obtain ⟨e, hs, hr⟩ := h0
    obtain ⟨t, _, ht, hfault, _⟩ := u2_tape_of_lt hlt
    rw [bind_ok ht, bind_ok (index_short hlt), hs t (by simp [hfault]), hr c hlt]
    exact .thrown e

theorem Reads.index_bind {f : Nat → Scan α} {g : Nat → Reader α} (hf : ∀ i, Reads told (f i) (g i))
    (h0 : Refuses told (f 0) (g 0)) : Reads told (Scan.u2 >>= f) (Reader.index >>= g) := by
  intro c
  by_cases hc : 2 ≤ c.rest.length
  · obtain ⟨n, c', hs, hr⟩ := u2_tape_of_le hc
    rw [bind_ok hs, bind_ok (index_of_u2 hr)]
    exact hf n c'
  · have hlt := Nat.lt_of_not_le hc
    obtain ⟨e, hs, hr⟩ := h0
    obtain ⟨t, _, ht, hfault, _⟩ := u2_tape_of_lt hlt
    rw [bind_ok ht, bind_ok (index_short hlt), hs t (by simp [hfault]), hr c hlt]

/-! ## Failures noted and parts read on their own -/

theorem noting_ok {s : Scan α} {key value : String} {t : Tape} {p : α × Tape} (h : s t = .ok p) :
    Scan.noting key value s t = .ok p := by
  simp only [Scan.noting, h]

theorem noting_error {s : Scan α} {key value : String} {t : Tape} {e : Malformed} (h : s t = .error e) :
    Scan.noting key value s t = .error (e.at key value) := by
  simp only [Scan.noting, h]

theorem Reads.noting {s : Scan α} {r : Reader α} (h : Reads id s r) (key value : String) :
    Reads id (Scan.noting key value s) (Reader.noting key value r) := by
  intro c
  cases hr : r c with
  | ok p => rw [noting_ok (h.of_ok hr), Reader.noting, hr]
  | error e => rw [noting_error (h.of_error hr), Reader.noting, hr]; rfl

theorem Reads.within {s : Scan α} {r : Reader α} (h : Reads id s r) (data : List UInt8) :
    Reads id (Scan.within { rest := data } s) (Reader.within r data) := by
  intro c
  have hbody : ({ rest := data } : Tape) = Cursor.tape { rest := data } := rfl
  rw [Scan.within, hbody]
  cases hr : r { rest := data } with
  | ok p => simp only [h.of_ok hr, Reader.within, hr]
  | error e => simp only [h.of_error hr, Reader.within, hr]

end

end JvmLint.ClassFile
