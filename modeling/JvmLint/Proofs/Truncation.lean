import JvmLint.Proofs.ScannedClasses

/-!
# Truncated class files

A class file is settled by its own bytes: what follows them does not matter,
and no proper beginning of them is a class file. No failure that a scan keeps
is lost (`reads_scanClass`), and the readers are exact (`Exact`), except the
bare indices, which are cut off unnoticed; number 0 of the pool is no constant,
so the lookup that follows fails.
-/

namespace JvmLint.ClassFile

/-! ## Constants -/

theorem starves_rejected {α : Type} (d : Defect) : Starves (Reader.constant (.error d) : Reader α) :=
  fun _ _ => ⟨_, rfl⟩

theorem starves_utf8 (p : ConstantPool) : Starves (Reader.constant (p.utf8 0)) := by
  rw [utf8_zero]; exact starves_rejected _

theorem starves_className (p : ConstantPool) : Starves (Reader.constant (p.className 0)) := by
  rw [className_zero]; exact starves_rejected _

theorem exact_className (p : ConstantPool) :
    Exact (Reader.index >>= fun i => Reader.constant (p.className i)) :=
  Exact.index_bind (fun _ => exact_constant _) (starves_className p)

theorem exact_readConstant (number tag : Nat) : Exact (ConstantPool.readConstant number tag) := by
  unfold ConstantPool.readConstant
  repeat' apply Exact.ite
  all_goals simp

theorem exact_readFrom (number left : Nat) : Exact (ConstantPool.readFrom number left) := by
  fun_induction ConstantPool.readFrom number left with
  | case1 => exact exact_pure _
  | case2 number => exact exact_u1.bind fun tag => (exact_readConstant number tag).bind fun _ => exact_pure _
  | case3 number left ihDouble ihSingle =>
    refine exact_u1.bind fun tag => (exact_readConstant number tag).bind fun c => Exact.ite ?_ ?_
    · exact ihDouble.bind fun _ => exact_pure _
    · exact ihSingle.bind fun _ => exact_pure _

theorem exact_readPool : Exact ConstantPool.read := by
  unfold ConstantPool.read
  refine exact_u2.bind fun count => Exact.ite (exact_fail _) ?_
  exact (exact_readFrom 1 (count - 1)).bind fun _ => exact_pure _

/-! ## Members and attributes -/

theorem exact_readAttribute (pool : ConstantPool) : Exact (readAttribute pool) :=
  exact_u2.bind fun _ => exact_u4.bind fun n => (exact_bytes n).bind fun _ =>
    (exact_constant _).bind fun _ => exact_pure _

theorem exact_iterate {α : Type} {step : α → Reader α} (h : ∀ a, Exact (step a)) :
    ∀ n a, Exact (iterate step n a)
  | 0, a => exact_pure a
  | n + 1, a => (h a).bind fun b => exact_iterate h n b

/-- Access flags, name and descriptor, and something that is exact: a field or a method. -/
theorem exact_memberHead {α : Type} (pool : ConstantPool) {f : Nat → String → String → Reader α}
    (hf : ∀ access name desc, Exact (f access name desc)) :
    Exact (do
      let access ← Reader.index
      let name ← Reader.constant (pool.utf8 (← Reader.index))
      let desc ← Reader.constant (pool.utf8 (← Reader.index))
      f access name desc) := by
  have hdesc : ∀ access name, Exact (do
      let desc ← Reader.constant (pool.utf8 (← Reader.index))
      f access name desc) := fun access name =>
    Exact.index_bind (fun _ => (exact_constant _).bind fun desc => hf access name desc) ((starves_utf8 pool).bind _)
  have hname : ∀ access, Exact (do
      let name ← Reader.constant (pool.utf8 (← Reader.index))
      let desc ← Reader.constant (pool.utf8 (← Reader.index))
      f access name desc) := fun access =>
    Exact.index_bind (fun _ => (exact_constant _).bind fun name => hdesc access name) ((starves_utf8 pool).bind _)
  exact Exact.index_bind hname (Starves.index_bind ((starves_utf8 pool).bind _))

theorem exact_readField (pool : ConstantPool) : Exact (readField pool) :=
  exact_memberHead pool fun _ _ _ => (exact_counted (exact_readAttribute pool)).bind fun _ => exact_pure _

theorem exact_readMethodAttribute (pool : ConstantPool) (m : Method) : Exact (readMethodAttribute pool m) := by
  refine (exact_readAttribute pool).bind fun (name, body) => Exact.ite ?_ (Exact.ite ?_ (exact_pure m))
  · exact ((exact_within _ _).noting _ _).bind fun _ => exact_pure _
  · exact (exact_within _ _).bind fun _ => exact_pure _

theorem exact_readMethod (pool : ConstantPool) : Exact (readMethod pool) :=
  exact_memberHead pool fun _ _ _ => exact_u2.bind fun n => exact_iterate (exact_readMethodAttribute pool) n _

theorem exact_readClassAttribute (pool : ConstantPool) (c : Class) : Exact (readClassAttribute pool c) := by
  refine (exact_readAttribute pool).bind fun (name, body) => Exact.ite ?_ (exact_pure c)
  exact (exact_within _ _).bind fun _ => exact_pure _

/-- A superclass that is cut off reads as none, so what follows it has to notice. -/
theorem exact_super_bind {α : Type} (pool : ConstantPool) {f : String → Reader α} (hf : ∀ super, Exact (f super))
    (hs : Starves (f "")) : Exact (readSuper pool >>= f) := by
  unfold readSuper
  rw [bind_assoc]
  refine Exact.index_bind (fun i => (Exact.ite (exact_pure _) (exact_constant _)).bind hf) ?_
  rw [if_pos rfl, pure_bind]
  exact hs

theorem exact_readClass : Exact readClass := by
  unfold readClass
  refine exact_u4.bind fun m => ?_
  extract_lets body
  suffices hbody : ∀ u, Exact (body u) from Exact.ite ((exact_reject _).bind hbody) (hbody ())
  intro u
  refine (exact_skip 2).bind fun _ => exact_u2.bind fun major => exact_readPool.bind fun pool => ?_
  -- Access flags and the name of the class: the name is looked up, so neither is cut off unnoticed.
  refine Exact.index_bind (fun access => Exact.index_bind (fun i => (exact_constant _).bind fun name => ?_)
    ((starves_className pool).bind _)) (Starves.index_bind ((starves_className pool).bind _))
  -- The superclass: the count of interfaces after it is missing when it is.
  refine exact_super_bind pool (fun super => ?_) ((starves_u2.noting _ _).bind _)
  refine (exact_u2.noting _ _).bind fun n => (exact_times (exact_className pool) n).bind fun interfaces => ?_
  refine ((exact_counted (exact_readField pool)).noting _ _).bind fun fields => ?_
  refine ((exact_counted (exact_readMethod pool)).noting _ _).bind fun methods => ?_
  exact (exact_u2.noting _ _).bind fun n => exact_iterate (exact_readClassAttribute pool) n _

/-! ## Class files -/

theorem fault_code (e : Malformed) : e.fault.code? = some .malformedClass := rfl

theorem parse_eq_ok {data : List UInt8} {c : Class} :
    parse data = .ok c ↔ ∃ c', readClass { rest := data } = .ok (c, c') := by
  rw [parse_eq_read]
  split
  · rename_i c₁ c' h
    rw [h]
    constructor
    · rintro ⟨⟩; exact ⟨c', rfl⟩
    · rintro ⟨c'', hc⟩; cases hc; rfl
  · rename_i e h
    simp [h]

theorem parse_error {data : List UInt8} {e : Malformed} (h : readClass { rest := data } = .error e) :
    parse data = .error e := by
  rw [parse_eq_read, h]

/-- Data is a class file or is refused with the code of malformed classes. A class takes up the first
`n` bytes of the data: fewer are refused, and further ones, whatever they are, change nothing. -/
theorem parse_truncated (data : List UInt8) :
    ((∃ c, parse data = .ok c) ∨ ∃ e, parse data = .error e ∧ e.fault.code? = some .malformedClass) ∧
    ∀ c, parse data = .ok c → ∃ n ≤ data.length,
      scanClass { rest := data } = .ok (c, { rest := data.drop n, pos := n }) ∧
      (∀ k < n, ∃ e, parse (data.take k) = .error e ∧ e.fault.code? = some .malformedClass) ∧
      (∀ k, n ≤ k → parse (data.take k) = .ok c) ∧
      ∀ tail, parse (data.take n ++ tail) = .ok c := by
  refine ⟨?_, fun c h => ?_⟩
  · cases parse data with
    | ok c => exact .inl ⟨c, rfl⟩
    | error e => exact .inr ⟨e, rfl, fault_code e⟩
  obtain ⟨c', hc⟩ := parse_eq_ok.mp h
  obtain ⟨enc, hdata, hpos, ht, hcut⟩ := exact_readClass _ c c' hc
  dsimp only at hdata hpos ht hcut
  subst hdata
  have htail : ∀ tail, parse (enc ++ tail) = .ok c := fun tail => parse_eq_ok.mpr ⟨_, ht tail⟩
  refine ⟨enc.length, by simp, ?_, ?_, ?_, ?_⟩
  · rw [List.drop_left]
    rw [Nat.zero_add] at hpos
    rw [← hpos]
    exact reads_scanClass.of_ok hc
  · intro k hk
    rw [List.take_append_of_le_length (Nat.le_of_lt hk)]
    obtain ⟨e, he⟩ := hcut (enc.take k) (enc.drop k) (List.take_append_drop k enc).symm
      (by simpa using hk)
    exact ⟨e, parse_error he, fault_code e⟩
  · intro k hk
    rw [List.take_append, List.take_of_length_le hk]
    exact htail _
  · intro tail
    rw [List.take_left]
    exact htail tail

def bareClass : List UInt8 :=
  [0xca, 0xfe, 0xba, 0xbe, 0, 0, 0, 61, 0, 3, 1, 0, 1, 65, 7, 0, 1, 0, 0x21, 0, 2, 0, 0, 0, 0, 0, 0, 0, 0, 0, 0]

/-- All bytes of the bare class are needed, and three more change nothing. -/
theorem parse_truncated_bareClass :
    (∀ k < 31, ∃ e, parse ((bareClass ++ [1, 2, 3]).take k) = .error e ∧ e.fault.code? = some .malformedClass) ∧
      ∀ k, 31 ≤ k → parse ((bareClass ++ [1, 2, 3]).take k) = .ok
        { name := "A", access := .publicClass, super := "", major := 61 } := by
  have hread : readClass { rest := bareClass ++ [1, 2, 3] } = .ok
      ({ name := "A", access := .publicClass, super := "", major := 61 }, { rest := [1, 2, 3], pos := 31 }) := rfl
  obtain ⟨n, _, hn, hcut, hmore, _⟩ := (parse_truncated (bareClass ++ [1, 2, 3])).2 _ (parse_eq_ok.mpr ⟨_, hread⟩)
  obtain rfl : n = 31 := congrArg (·.2.pos) (Except.ok.inj (hn.symm.trans (reads_scanClass.of_ok hread)))
  exact ⟨hcut, hmore⟩

end JvmLint.ClassFile
