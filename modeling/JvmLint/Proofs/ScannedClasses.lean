import JvmLint.Proofs.CodeStream

/-!
# Scanned classes

A class is scanned to what it is read to, and is refused for the same defect
(`parse_eq_read`). Of the failures that a tape can keep, those before the name
of the class are checked with the constants; those after it are checked with
each member and, for the counts between, at the end.
-/

namespace JvmLint.ClassFile

/-! ## Constants -/

theorem tracks_scanConstant (number tag : Nat) :
    Tracks id id (ConstantPool.scanConstant number tag) (ConstantPool.readConstant number tag) := by
  have hu1 := tracks_u1 tellsEnd_id
  have hu2 := tracks_u2 tellsEnd_id
  have hskip := tracks_skip tellsEnd_id
  unfold ConstantPool.scanConstant ConstantPool.readConstant
  repeat' apply Tracks.ite
  · exact hu2.bind fun n => (tracks_bytes tellsEnd_id n).bind fun _ => tracks_pure _
  · exact (hskip 4).bind fun _ => tracks_pure _
  · exact (hskip 8).bind fun _ => tracks_pure _
  · exact hu2.bind fun _ => tracks_pure _
  · exact (hskip 2).bind fun _ => tracks_pure _
  · exact hu2.bind fun _ => hu2.bind fun _ => tracks_pure _
  · exact hu2.bind fun _ => hu2.bind fun _ => tracks_pure _
  · exact (hskip 2).bind fun _ => (hskip 2).bind fun _ => tracks_pure _
  · exact (hskip 2).bind fun _ => hu2.bind fun _ => tracks_pure _
  · exact (hskip 1).bind fun _ => (hskip 2).bind fun _ => tracks_pure _
  · exact tracks_fail (fun _ => rfl) _

theorem tracks_scanFrom (number left : Nat) :
    Tracks id id (ConstantPool.scanFrom number left) (ConstantPool.readFrom number left) := by
  have hu1 := tracks_u1 tellsEnd_id
  fun_induction ConstantPool.readFrom number left with
  | case1 => exact tracks_pure _
  | case2 number =>
    exact (hu1.agrees.bind fun tag => (tracks_scanConstant number tag).bind fun _ => tracks_pure _).unlessFailed []
  | case3 number left ihDouble ihSingle =>
    refine (hu1.agrees.bind fun tag => (tracks_scanConstant number tag).bind fun c => Tracks.ite ?_ ?_).unlessFailed []
    · exact ihDouble.bind fun _ => tracks_pure _
    · exact ihSingle.bind fun _ => tracks_pure _

theorem tracks_scanPool : Tracks id id ConstantPool.scan ConstantPool.read :=
  (tracks_u2 tellsEnd_id).bind fun count => Tracks.ite (tracks_fail (fun _ => rfl) _)
    ((tracks_scanFrom 1 (count - 1)).bind fun _ => tracks_pure _)

/-! ## Members -/

theorem reads_className (pool : ConstantPool) :
    Reads id (Scan.u2 >>= fun i => Scan.constant (pool.className i))
      (Reader.index >>= fun i => Reader.constant (pool.className i)) :=
  Reads.index_bind (fun _ => reads_constant _) (refuses_constant (className_zero pool))

/-- Access flags, name and descriptor, and something that reads alike: a field or a method. -/
theorem reads_memberHead {α : Type} (pool : ConstantPool) {f : Nat → String → String → Scan α}
    {g : Nat → String → String → Reader α} (h : ∀ access name desc, Reads id (f access name desc) (g access name desc)) :
    Reads id
      (do
        let access ← Scan.u2
        let name ← Scan.constant (pool.utf8 (← Scan.u2))
        let desc ← Scan.constant (pool.utf8 (← Scan.u2))
        f access name desc)
      (do
        let access ← Reader.index
        let name ← Reader.constant (pool.utf8 (← Reader.index))
        let desc ← Reader.constant (pool.utf8 (← Reader.index))
        g access name desc) := by
  have hzero := refuses_constant (utf8_zero pool)
  refine Reads.index_bind (fun access => Reads.index_bind (fun i => (reads_constant _).bind fun name =>
    Reads.index_bind (fun j => (reads_constant _).bind fun desc => h access name desc) ?_) ?_) ?_
  · exact hzero.bind _ _
  · exact hzero.bind _ _
  · exact (hzero.bind _ _).index_bind

theorem times_map {α β : Type} (f : α → β) (r : Reader α) : ∀ n, Reader.times n (f <$> r) = List.map f <$> Reader.times n r
  | 0 => rfl
  | n + 1 => by
    unfold Reader.times
    simp [times_map f r n]

theorem counted_map {α β : Type} (f : α → β) (r : Reader α) : counted (f <$> r) = List.map f <$> counted r := by
  unfold counted
  rw [map_bind]
  exact bind_congr fun n => times_map f r n

theorem reads_scanField (pool : ConstantPool) : Reads id (scanField pool) (readField pool) := by
  refine reads_memberHead pool fun access name desc => ?_
  have hattributes := ((reads_scanAttribute pool).agrees.counted tellsEnd_id).agrees.checked
  rw [counted_map] at hattributes
  exact hattributes.bind_image fun _ => reads_pure _

theorem reads_scanExceptions (pool : ConstantPool) : Reads id (scanExceptions pool) (readExceptions pool) :=
  ((reads_className pool).agrees.counted tellsEnd_id).agrees.checked

theorem reads_scanMethodAttribute (pool : ConstantPool) (m : Method) :
    Reads id (scanMethodAttribute pool m) (readMethodAttribute pool m) := by
  refine (reads_scanAttribute pool).bind_image fun a => ?_
  obtain ⟨name, data⟩ := a
  dsimp only [bodyTape]
  split
  · exact (((reads_scanCode pool).within data).noting _ _).bind fun _ => reads_pure _
  · split
    · exact ((reads_scanExceptions pool).within data).bind fun _ => reads_pure _
    · exact reads_pure _

theorem reads_scanMethod (pool : ConstantPool) : Reads id (scanMethod pool) (readMethod pool) :=
  reads_memberHead pool fun _ _ _ => ((tracks_u2 tellsEnd_id).agrees.bind fun n =>
    Agrees.iterate (fun m => (reads_scanMethodAttribute pool m).agrees) n _).checked

theorem reads_scanClassAttribute (pool : ConstantPool) (c : Class) :
    Reads id (scanClassAttribute pool c) (readClassAttribute pool c) := by
  refine (reads_scanAttribute pool).bind_image fun a => ?_
  obtain ⟨name, data⟩ := a
  dsimp only [bodyTape]
  split
  · have hname := Reads.index_bind (fun i => reads_constant (pool.utf8 i)) (refuses_constant (utf8_zero pool))
    exact (hname.within data).bind fun _ => reads_pure _
  · exact reads_pure _

/-! ## Classes -/

section
variable (name : String)

/-- A count between two members is checked only at the end, with the name of the class noted. -/
theorem tracks_u2_inClass : Tracks id (·.at "class" name) Scan.u2 (Reader.noting "class" name Reader.u2) := by
  refine ⟨fun c => ?_, (tracks_u2 (tellsEnd_refl _)).keeps⟩
  by_cases hc : 2 ≤ c.rest.length
  · obtain ⟨n, c', hs, hr⟩ := u2_tape_of_le hc
    rw [hs, noting_eq_ok.mpr hr]
    exact .ok n c'
  · obtain ⟨t, details, hs, hkept, hr⟩ := u2_tape_of_lt (Nat.lt_of_not_le hc)
    rw [hs, Reader.noting, hr]
    exact .kept hkept rfl

theorem noting_bind {α β : Type} (key value : String) (r : Reader α) (f : α → Reader β) :
    Reader.noting key value (r >>= f) = Reader.noting key value r >>= fun a => Reader.noting key value (f a) := by
  funext c
  unfold Reader.noting
  rw [bind_apply, bind_apply]
  cases r c <;> rfl

theorem noting_times {α : Type} (key value : String) (r : Reader α) :
    ∀ n, Reader.noting key value (Reader.times n r) = Reader.times n (Reader.noting key value r)
  | 0 => rfl
  | n + 1 => by
    unfold Reader.times
    rw [noting_bind]
    refine bind_congr fun a => ?_
    rw [noting_bind, noting_times key value r n]
    rfl

theorem tracks_counted_inClass {α : Type} {s : Scan α} {r : Reader α} (h : Reads id s r) :
    Tracks id (·.at "class" name) (Scan.counted (Scan.noting "class" name s)) (Reader.noting "class" name (counted r)) := by
  unfold counted
  rw [noting_bind]
  refine (tracks_u2_inClass name).bind fun n => ?_
  rw [noting_times]
  exact (h.noting "class" name).agrees.each n

/-- A superclass that is cut off reads as none, and the count after it fails where the superclass did. -/
theorem agrees_super_bind {α : Type} (pool : ConstantPool) {f : String → Scan α} {g : String → Reader α}
    (h : ∀ super, Tracks id (·.at "class" name) (f super) (g super))
    (hcount : ∀ c e, Reader.noting "class" name Reader.u2 c = .error e → g "" c = .error e) :
    Agrees id (·.at "class" name) (scanSuper pool >>= f) (readSuper pool >>= g) := by
  intro c
  unfold scanSuper readSuper
  rw [bind_assoc, bind_assoc]
  by_cases hc : 2 ≤ c.rest.length
  · obtain ⟨i, c', hs, hr⟩ := u2_tape_of_le hc
    rw [bind_ok hs, bind_ok (index_of_u2 hr)]
    have hname : Reads id (if i = 0 then pure "" else Scan.constant (pool.className i))
        (if i = 0 then pure "" else Reader.constant (pool.className i)) := by
      split
      · exact reads_pure ""
      · exact reads_constant _
    exact hname.bind_agrees (fun super => (h super).agrees) c'
  · have hlt := Nat.lt_of_not_le hc
    obtain ⟨t, details, hs, hkept, hr⟩ := u2_tape_of_lt hlt
    have hrest : g "" c = .error (Malformed.at ⟨.endOfData 2 c.rest.length, details⟩ "class" name) :=
      hcount c _ (by rw [Reader.noting, hr])
    rw [bind_ok hs, bind_ok (index_short hlt), if_pos rfl, if_pos rfl, pure_bind, pure_bind, hrest]
    rcases (h "").keeps t _ hkept with hthrow | ⟨a, t', hok, hkept'⟩
    · rw [hthrow]; exact .thrown _
    · rw [hok]; exact .kept hkept' rfl

end

theorem reads_scanMembers (pool : ConstantPool) (major access : Nat) (name : String) :
    Reads id (scanMembers pool major access name)
      (do
        let super ← readSuper pool
        let interfaces ← Reader.times (← Reader.noting "class" name Reader.u2)
          (do Reader.constant (pool.className (← Reader.index)))
        let fields ← Reader.noting "class" name (counted (readField pool))
        let methods ← Reader.noting "class" name (counted (readMethod pool))
        let n ← Reader.noting "class" name Reader.u2
        iterate (readClassAttribute pool) n
          { name, super, interfaces, fields, methods
            access := ⟨UInt16.ofNat access⟩
            major := UInt16.ofNat major }) := by
  refine Agrees.checkedAs ?_
  refine agrees_super_bind name pool (fun super => ?_) fun c e he => bind_error he
  unfold Scan.counted
  rw [bind_assoc]
  refine (tracks_u2_inClass name).bind fun n => ((reads_className pool).agrees.each n).bind fun interfaces => ?_
  refine (tracks_counted_inClass name (reads_scanField pool)).bind fun fields => ?_
  refine (tracks_counted_inClass name (reads_scanMethod pool)).bind fun methods => ?_
  exact (tracks_u2_inClass name).bind fun n => Agrees.iterate (fun c => (reads_scanClassAttribute pool c).agrees) n _

/-- The version and the constants are checked together. -/
theorem reads_header_bind {α : Type} {f : Nat × ConstantPool → Scan α} {g : Nat → ConstantPool → Reader α}
    (h : ∀ p, Reads id (f p) (g p.1 p.2)) :
    Reads id ((Scan.checked do Scan.skip 2; return (← Scan.u2, ← ConstantPool.scan)) >>= f)
      (do Reader.skip 2; let major ← Reader.u2; let pool ← ConstantPool.read; g major pool) := by
  have hchecked : Reads id (Scan.checked do Scan.skip 2; return (← Scan.u2, ← ConstantPool.scan))
      (do Reader.skip 2; return (← Reader.u2, ← ConstantPool.read)) :=
    ((tracks_skip tellsEnd_id 2).agrees.bind fun _ => (tracks_u2 tellsEnd_id).bind fun _ =>
      tracks_scanPool.bind fun _ => tracks_pure _).checked
  have hall := hchecked.bind h
  simp only [bind_assoc, pure_bind] at hall
  exact hall

theorem reads_scanClass : Reads id scanClass readClass := by
  have hmagic : Reads id (Scan.checked Scan.u4) Reader.u4 := (tracks_u4 tellsEnd_id).agrees.checked
  unfold scanClass readClass
  refine hmagic.bind fun m => ?_
  dsimp only
  split
  · exact fun c => rfl
  · refine reads_header_bind fun p => ?_
    have hzero := refuses_constant (className_zero p.2)
    refine Reads.index_bind (fun access => Reads.index_bind (fun i => (reads_constant _).bind fun name =>
      reads_scanMembers p.2 p.1 access name) ?_) ?_
    · exact hzero.bind _ _
    · exact (hzero.bind _ _).index_bind

theorem parse_eq_read (data : List UInt8) :
    parse data = match readClass { rest := data } with
      | .ok (c, _) => .ok c
      | .error e => .error e := by
  have hread := reads_scanClass { rest := data }
  unfold parse
  rw [show ({ rest := data } : Tape) = Cursor.tape { rest := data } from rfl, hread]
  cases readClass { rest := data } <;> rfl

end JvmLint.ClassFile
