import JvmLint.Proofs.KeptFailures

/-!
# Scanned code

Decoding by scans gives what decoding by readers gives. Lookups throw at once
and say where the instruction is; everything else is kept by the tape and
thrown with a note when the instruction is complete (`noted`). The entries of a
jump table are counted in words of 32 bits: how often that loop turns is
`tableSize` (`tracks_cases`).
-/

namespace JvmLint.ClassFile

/-! ## Lookups -/

theorem get_zero (p : ConstantPool) : p.get 0 = .error (.indexOutOfRange 0) := by
  unfold ConstantPool.get
  split
  · rw [if_pos rfl]
  · rfl

theorem utf8_zero (p : ConstantPool) : p.utf8 0 = .error (.indexOutOfRange 0) := by
  unfold ConstantPool.utf8; rw [get_zero]; rfl

theorem className_zero (p : ConstantPool) : p.className 0 = .error (.indexOutOfRange 0) := by
  unfold ConstantPool.className; rw [get_zero]; rfl

theorem member_zero (p : ConstantPool) : p.member 0 = .error (.indexOutOfRange 0) := by
  unfold ConstantPool.member; rw [get_zero]; rfl

theorem dynamic_zero (p : ConstantPool) : p.dynamic 0 = .error (.indexOutOfRange 0) := by
  unfold ConstantPool.dynamic; rw [get_zero]; rfl

section
variable {α β : Type}

def Unplaced (found : Except Defect α) : Prop := ∀ d, found = .error d → d.isPositional = false

theorem unplaced_ok (a : α) : Unplaced (.ok a) := fun _ h => nomatch h

theorem unplaced_error {d : Defect} (h : d.isPositional = false) : Unplaced (.error d : Except Defect α) := by
  rintro _ ⟨⟩; exact h

theorem Unplaced.bind {found : Except Defect α} {f : α → Except Defect β} (h : Unplaced found)
    (hf : ∀ a, Unplaced (f a)) : Unplaced (found >>= f) := by
  cases found with
  | ok a => exact hf a
  | error d => exact unplaced_error (h d rfl)

theorem unplaced_get (p : ConstantPool) (i : Nat) : Unplaced (p.get i) := by
  unfold ConstantPool.get
  split
  · split
    · exact unplaced_error rfl
    · exact unplaced_ok _
  · exact unplaced_error rfl

theorem unplaced_utf8 (p : ConstantPool) (i : Nat) : Unplaced (p.utf8 i) := by
  refine (unplaced_get p i).bind fun c => ?_
  split
  · exact unplaced_ok _
  · exact unplaced_error rfl

theorem unplaced_className (p : ConstantPool) (i : Nat) : Unplaced (p.className i) := by
  refine (unplaced_get p i).bind fun c => ?_
  split
  · exact unplaced_utf8 p _
  · exact unplaced_error rfl

theorem unplaced_nameAndType (p : ConstantPool) (i : Nat) : Unplaced (p.nameAndType i) := by
  refine (unplaced_get p i).bind fun c => ?_
  split
  · exact (unplaced_utf8 p _).bind fun _ => (unplaced_utf8 p _).bind fun _ => unplaced_ok _
  · exact unplaced_error rfl

theorem unplaced_member (p : ConstantPool) (i : Nat) : Unplaced (p.member i) := by
  refine (unplaced_get p i).bind fun c => ?_
  split
  · exact (unplaced_className p _).bind fun _ => (unplaced_nameAndType p _).bind fun _ => unplaced_ok _
  · exact unplaced_error rfl

theorem unplaced_dynamic (p : ConstantPool) (i : Nat) : Unplaced (p.dynamic i) := by
  refine (unplaced_get p i).bind fun c => ?_
  split
  · exact unplaced_nameAndType p _
  · exact unplaced_error rfl

theorem reads_lookup {found : Except Defect α} (h : Unplaced found) (key value : String) :
    Reads noted (Scan.noting key value (Scan.constant found)) (Reader.noting key value (Reader.constant found)) := by
  intro c
  cases found with
  | ok a => rfl
  | error d =>
    have hd : d.isPositional = false := h d rfl
    refine congrArg Except.error ?_
    simp [noted, Malformed.at, hd]

theorem refuses_lookup {found : Except Defect α} {d : Defect} (h : found = .error d) (hd : d.isPositional = false)
    (key value : String) :
    Refuses noted (Scan.noting key value (Scan.constant found)) (Reader.noting key value (Reader.constant found)) := by
  subst h
  refine ⟨_, fun t _ => ?_, fun _ _ => rfl⟩
  refine congrArg Except.error ?_
  simp [noted, Malformed.at, hd]

end

/-! ## The entries of a jump table -/

theorem toInt_succ {i : Int32} (h : i.toInt < 0x7fffffff) : (i + 1).toInt = i.toInt + 1 := by
  have hlow : -2 ^ 31 ≤ i.toInt := i.le_toInt
  rw [Int32.toInt_add]
  exact Int.bmod_eq_of_le (by simp; omega) (by simp; omega)

theorem cases_stop {i high : Int32} {t : Tape} (h : ¬ (i ≤ high ∧ t.fault = none)) : t.cases i high = ([], t) := by
  rw [Tape.cases, dif_neg h]

theorem cases_turn {i high : Int32} {t : Tape} (hle : i ≤ high) (ht : t.fault = none) :
    t.cases i high = (t.i4.1 :: (t.i4.2.cases (i + 1) high).1, (t.i4.2.cases (i + 1) high).2) := by
  rw [Tape.cases, dif_pos ⟨hle, ht⟩]

/-- How many turns the loop takes from number `i` on, with `left` bytes to read, unless a read fails before.
Below the largest word the number passes `high` then; the largest word it never passes. -/
def Turns (high i : Int32) (left n : Nat) : Prop :=
  (high.toInt ≠ 0x7fffffff ∧ i.toInt + n = high.toInt + 1) ∨ (high.toInt = 0x7fffffff ∧ n = left / 4 + 1)

theorem turns_tableSize {low high : Int32} (h : low ≤ high) (left : Nat) :
    Turns high low left (tableSize low.toInt high.toInt left) := by
  have hle := Int32.le_iff_toInt_le.mp h
  unfold Turns tableSize
  split
  · exact .inr ⟨‹_›, rfl⟩
  · exact .inl ⟨‹_›, by omega⟩

theorem Turns.stop {high i : Int32} {left : Nat} (h : Turns high i left 0) : ¬ i ≤ high := by
  intro hle
  have := Int32.le_iff_toInt_le.mp hle
  unfold Turns at h
  omega

theorem Turns.le {high i : Int32} {left n : Nat} (h : Turns high i left (n + 1)) : i ≤ high := by
  have hmax : i.toInt ≤ 0x7fffffff := i.toInt_le
  unfold Turns at h
  exact Int32.le_iff_toInt_le.mpr (by omega)

theorem Turns.next {high i : Int32} {left n : Nat} (h : Turns high i (left + 4) (n + 1)) : Turns high (i + 1) left n := by
  rcases h with ⟨hlast, hn⟩ | ⟨hlast, hn⟩
  · have hhigh : high.toInt ≤ 0x7fffffff := high.toInt_le
    have hsucc := toInt_succ (i := i) (by omega)
    exact .inl ⟨hlast, by omega⟩
  · exact .inr ⟨hlast, by omega⟩

section
variable {told note : Malformed → Malformed}

theorem length_i4 {c c' : Cursor} {n : Int} (h : Reader.i4 c = .ok (n, c')) : c.rest.length = c'.rest.length + 4 := by
  obtain ⟨w, c₁, hw, hn⟩ := bind_eq_ok.mp h
  obtain rfl : c₁ = c' := congrArg Prod.snd (Except.ok.inj hn)
  obtain ⟨enc, hrest, hlen, _⟩ := word_eq_ok.mp hw
  rw [hrest, List.length_append]
  omega

theorem i4_short {c : Cursor} (h : c.rest.length < 4) :
    Reader.i4 c = Reader.fail (.endOfData 4 c.rest.length) c := by
  have hbytes : Reader.bytes 4 c = Reader.fail (.endOfData 4 c.rest.length) c := by
    rw [bytes_apply, if_neg (by omega)]
  exact bind_error (bind_error hbytes)

/-- A word is read alike, or it is cut off and the tape keeps that. -/
theorem i4_tape (ht : TellsEnd told note) (c : Cursor) :
    (∃ w c', c.tape.i4 = (w, Cursor.tape c') ∧ Reader.i4 c = .ok (w.toInt, c') ∧
      c.rest.length = c'.rest.length + 4) ∨
    ∃ w t e e', c.tape.i4 = (w, t) ∧ t.fault = some e' ∧ note e' = told e ∧ Reader.i4 c = .error e ∧
      c.rest.length < 4 := by
  have hword := (tracks_i4 ht).agrees c
  rw [map_apply, Scan.i4] at hword
  generalize hrc : Reader.i4 c = o at hword
  generalize c.tape.i4 = next at hword
  obtain ⟨w, t⟩ := next
  cases hword with
  | ok _ c' => exact .inl ⟨w, c', rfl, rfl, length_i4 hrc⟩
  | kept hkept htold =>
    refine .inr ⟨w, t, _, _, rfl, hkept, htold, rfl, Nat.lt_of_not_le fun hle => ?_⟩
    obtain ⟨n, c', _, hr⟩ := word_tape_of_le hle
    have hok : Reader.i4 c = .ok (_, c') := bind_ok hr
    rw [hok] at hrc
    cases hrc

theorem follows_cases (ht : TellsEnd told note) {high : Int32} : ∀ {n : Nat} {i : Int32} {c : Cursor},
    Turns high i c.rest.length n →
    Follows told note ((List.map Int32.toInt <$> Scan.cases i high) c.tape) (Reader.times n Reader.i4 c)
  | 0, i, c, h => by
    rw [map_apply, Scan.cases, cases_stop fun hle => h.stop hle.1]
    exact .ok [] c
  | n + 1, i, c, h => by
    rw [map_apply, Scan.cases, cases_turn (t := c.tape) h.le rfl, Reader.times]
    rcases i4_tape ht c with ⟨w, c', hs, hr, hlen⟩ | ⟨w, t, e, e', hs, hkept, htold, hr, _⟩
    · have hmore := follows_cases ht (hlen ▸ h).next
      rw [map_apply, Scan.cases] at hmore
      rw [hs, bind_ok hr]
      generalize htimes : Reader.times n Reader.i4 c' = o at hmore
      generalize c'.tape.cases (i + 1) high = more at hmore
      obtain ⟨ws, t⟩ := more
      cases hmore with
      | ok _ c'' => rw [bind_ok htimes]; exact .ok _ c''
      | kept hkept htold => rw [bind_error htimes]; exact .kept hkept htold
    · rw [hs, bind_error hr, cases_stop (by simp [hkept])]
      exact .kept hkept htold

/-- Where there is data for all turns but the last, the loop gives a word for each turn. -/
theorem length_cases {high : Int32} : ∀ {n : Nat} {i : Int32} {c : Cursor}, Turns high i c.rest.length n →
    4 * n ≤ c.rest.length + 4 → (c.tape.cases i high).1.length = n
  | 0, i, c, h, _ => by
    rw [cases_stop fun hle => h.stop hle.1]
    rfl
  | n + 1, i, c, h, hdata => by
    rw [cases_turn (t := c.tape) h.le rfl, List.length_cons]
    congr 1
    rcases i4_tape tellsEnd_id c with ⟨w, c', hs, _, hlen⟩ | ⟨w, t, _, _, hs, hkept, _, _, hshort⟩
    · rw [hs]
      exact length_cases (hlen ▸ h).next (by omega)
    · obtain rfl : n = 0 := by omega
      rw [hs, cases_stop (by simp [hkept])]
      rfl

theorem tracks_cases (ht : TellsEnd told note) {low high : Int32} (hle : low ≤ high) :
    Tracks told note (List.map Int32.toInt <$> Scan.cases low high)
      (Reader.remaining >>= fun n => Reader.times (tableSize low.toInt high.toInt n) Reader.i4) := by
  refine ⟨fun c => ?_, Keeps.still fun t e h => ⟨[], ?_⟩⟩
  · rw [bind_ok (show Reader.remaining c = .ok (c.rest.length, c) from rfl)]
    exact follows_cases ht (turns_tableSize hle c.rest.length)
  · rw [map_apply, Scan.cases, cases_stop (by simp [h])]
    rfl

end

/-! ## Operands -/

def inBytecode (e : Malformed) : Malformed := e.at "operation" "decode bytecode"

theorem tellsEnd_noted : TellsEnd noted inBytecode := fun _ _ _ => rfl

theorem noted_positional {d : Defect} (h : d.isPositional = true) (details : Details) :
    noted ⟨d, details⟩ = inBytecode ⟨d, details⟩ := by
  simp [noted, inBytecode, h]

theorem tracks_position : Tracks noted inBytecode Scan.position Reader.position :=
  ⟨fun c => .ok c.pos c, Keeps.still fun t _ _ => ⟨t.pos, rfl⟩⟩

theorem tracks_scanTable (size pc : Nat) (op : Opcode) :
    Tracks noted inBytecode (scanTable size pc op) (readTable size pc op) := by
  have hword := tracks_i4 tellsEnd_noted
  unfold scanTable readTable
  refine tracks_position.bind fun pos => (tracks_skip tellsEnd_noted _).bind fun _ => ?_
  refine Tracks.bind_view _ hword fun dflt => Tracks.bind_view _ hword fun low => Tracks.bind_view _ hword fun high => ?_
  have hrange : (decide (high < low) || decide ((size : Int) ≤ (high - low).toInt)) =
      (decide (high.toInt < low.toInt) || decide ((size : Int) ≤ Int.bmod (high.toInt - low.toInt) 0x100000000)) := by
    rw [Int32.toInt_sub]
    simp [Int32.lt_iff_toInt_lt]
  rw [hrange]
  split
  · exact tracks_fail (noted_positional rfl) _
  · rename_i haccept
    have hle : low ≤ high := by
      simp only [Bool.or_eq_true, decide_eq_true_eq, not_or, Int.not_lt] at haccept
      exact Int32.le_iff_toInt_le.mpr haccept.1
    rw [← bind_assoc]
    refine Tracks.bind_view _ (tracks_cases tellsEnd_noted hle) fun cases => ?_
    rw [List.map_map]
    exact tracks_pure _

theorem tracks_scanPairs (size pc : Nat) (op : Opcode) :
    Tracks noted inBytecode (scanPairs size pc op) (readPairs size pc op) := by
  have hword := tracks_i4 tellsEnd_noted
  have hpair : Tracks noted inBytecode (Int32.toInt <$> (do Scan.skip 4; Scan.i4)) (do Reader.skip 4; Reader.i4) := by
    rw [map_bind]
    exact (tracks_skip tellsEnd_noted 4).bind fun _ => hword
  unfold scanPairs readPairs
  refine tracks_position.bind fun pos => (tracks_skip tellsEnd_noted _).bind fun _ => ?_
  refine Tracks.bind_view _ hword fun dflt => Tracks.bind_view _ hword fun pairs => ?_
  dsimp only
  split
  · exact tracks_fail (noted_positional rfl) _
  · have hcases := hpair.agrees.each pairs.toInt.toNat
    rw [← map_each] at hcases
    refine Tracks.bind_view _ hcases fun cases => ?_
    rw [List.map_map]
    exact tracks_pure _

theorem tracks_scanWide : Tracks noted inBytecode scanWide readWide := by
  unfold scanWide readWide
  refine (tracks_u1 tellsEnd_noted).bind fun b => (tracks_u2 tellsEnd_noted).bind fun slot => ?_
  cases layout ⟨UInt8.ofNat b⟩ with
  | increment => exact (tracks_skip tellsEnd_noted 2).bind fun _ => tracks_pure _
  | slot => exact tracks_pure _
  | _ => exact tracks_fail (noted_positional rfl) _

/-- An index, a lookup that says where the instruction is, and bytes that are skipped. -/
theorem agrees_lookup {α : Type} {found : Nat → Except Defect α} (h : ∀ i, Unplaced (found i)) {d : Defect}
    (h0 : found 0 = .error d) (pc n : Nat) (result : α → Operation) :
    Agrees noted inBytecode
      (do
        let a ← Scan.noting "offset" (toString pc) (Scan.constant (found (← Scan.u2)))
        Scan.skip n
        return result a)
      (do
        let a ← Reader.noting "offset" (toString pc) (Reader.constant (found (← Reader.index)))
        Reader.skip n
        return result a) := by
  have hskip : ∀ a, Agrees noted inBytecode (do Scan.skip n; return result a) (do Reader.skip n; return result a) :=
    fun a => (tracks_skip tellsEnd_noted n).agrees.bind fun _ => tracks_pure _
  refine Agrees.index_bind (fun i => (reads_lookup (h i) _ _).bind_agrees hskip) ?_
  exact (refuses_lookup h0 (h 0 d h0) _ _).bind _ _

theorem agrees_scanOperands (pool : ConstantPool) (size pc : Nat) (op : Opcode) :
    Agrees noted inBytecode (scanOperands pool size pc op) (readOperands pool size pc op) := by
  unfold scanOperands readOperands
  cases layout op with
  | implied general slot => exact (tracks_pure _).agrees
  | slot => exact (tracks_u1 tellsEnd_noted).agrees.bind fun _ => tracks_pure _
  | increment =>
    exact (tracks_u1 tellsEnd_noted).agrees.bind fun _ => (tracks_skip tellsEnd_noted 1).bind fun _ => tracks_pure _
  | ignored general n => exact (tracks_skip tellsEnd_noted n).agrees.bind fun _ => tracks_pure _
  | branch => exact Agrees.bind_view _ (tracks_i2 tellsEnd_noted).agrees fun _ => tracks_pure _
  | wideBranch general => exact Agrees.bind_view _ (tracks_i4 tellsEnd_noted).agrees fun _ => tracks_pure _
  | table => exact (tracks_scanTable size pc op).agrees
  | pairs => exact (tracks_scanPairs size pc op).agrees
  | member n => exact agrees_lookup (unplaced_member pool) (member_zero pool) pc n _
  | dynamic => exact agrees_lookup (unplaced_dynamic pool) (dynamic_zero pool) pc 2 _
  | type n => exact agrees_lookup (unplaced_className pool) (className_zero pool) pc n _
  | wide => exact tracks_scanWide.agrees
  | undefined => exact (tracks_fail (noted_positional rfl) _).agrees

/-! ## Instructions -/

/-- A cut-off opcode reads as 0, which has no operands to look up. -/
theorem keeps_scanOperands_zero (pool : ConstantPool) (size pc : Nat) :
    Keeps inBytecode (scanOperands pool size pc ⟨UInt8.ofNat 0⟩) := by
  have hlayout : layout ⟨UInt8.ofNat 0⟩ = .ignored ⟨UInt8.ofNat 0⟩ 0 := by decide +kernel
  unfold scanOperands
  rw [hlayout]
  exact (tracks_skip tellsEnd_noted 0).keeps.bind fun _ => keeps_pure _

theorem reads_scanInstruction (pool : ConstantPool) (size : Nat) :
    Reads noted (scanInstruction pool size) (readInstruction pool size) := by
  have hoperands : ∀ pc, Agrees noted inBytecode (do scanOperands pool size pc ⟨UInt8.ofNat (← Scan.u1)⟩)
      (do readOperands pool size pc ⟨UInt8.ofNat (← Reader.u1)⟩) := fun pc =>
    Tracks.word_bind tellsEnd_noted 1 (fun op => agrees_scanOperands pool size pc ⟨UInt8.ofNat op⟩)
      (keeps_scanOperands_zero pool size pc) |>.agrees
  have hinstruction : readInstruction pool size = (do
      let pc ← Reader.position
      let o ← (do readOperands pool size pc ⟨UInt8.ofNat (← Reader.u1)⟩)
      return (pc, o)) := by
    unfold readInstruction
    simp only [bind_assoc]
  rw [hinstruction]
  refine Reads.bind (fun _ => rfl) fun pc => (hoperands pc).checkedAs.bind fun o => reads_pure (pc, o)

theorem reads_scanInstructions (pool : ConstantPool) (size : Nat) :
    ∀ fuel, Reads noted (scanInstructions pool size fuel) (readInstructions pool size fuel)
  | 0 => reads_pure []
  | fuel + 1 => by
    have hmore := (reads_scanInstruction pool size).bind fun i => (reads_scanInstructions pool size fuel).bind fun is =>
      reads_pure (i :: is)
    intro c
    rw [scanInstructions, readInstructions, bind_ok (show Reader.remaining c = .ok (c.rest.length, c) from rfl),
      bind_ok (show Scan.done c.tape = .ok (c.rest.isEmpty, c.tape) from rfl)]
    cases hrest : c.rest with
    | nil => rfl
    | cons b rest => exact hmore c

def decodeRest (pool : ConstantPool) (size : Nat) (t : Tape) : Except Malformed (List (Nat × Operation)) :=
  match scanInstructions pool size t.rest.length t with
  | .ok (is, _) => .ok is
  | .error e => .error e

theorem decodeRest_eq_from (pool : ConstantPool) (size : Nat) (c : Cursor) :
    decodeRest pool size c.tape = decodeFrom pool size c := by
  have hread := reads_scanInstructions pool size c.rest.length
  unfold decodeRest decodeFrom
  cases hr : readInstructions pool size c.rest.length c with
  | ok p =>
    have hs : scanInstructions pool size c.tape.rest.length c.tape = .ok (p.1, p.2.tape) := hread.of_ok hr
    rw [hs]
  | error e =>
    have hs : scanInstructions pool size c.tape.rest.length c.tape = .error (noted e) := hread.of_error hr
    rw [hs]

theorem decode_eq_from (pool : ConstantPool) (code : List UInt8) :
    decode pool code = decodeFrom pool code.length { rest := code } :=
  decodeRest_eq_from pool code.length { rest := code }

/-! ## Attributes and tables -/

theorem tracks_sub (n : Nat) :
    Tracks id id (Scan.sub n) ((fun data => ({ rest := data } : Tape)) <$> Reader.bytes n) := by
  refine ⟨fun c => ?_, Keeps.still fun t e h => ⟨{ rest := [], fault := t.fault }, ?_⟩⟩
  · rw [map_apply, bytes_apply, Scan.sub]
    by_cases hn : n ≤ c.rest.length
    · rw [if_pos hn, Tape.bytes_of_le rfl hn]
      exact .ok _ { rest := c.rest.drop n, pos := c.pos + n }
    · rw [if_neg hn, Tape.bytes_of_lt rfl (Nat.lt_of_not_le hn)]
      exact .kept rfl rfl
  · rw [Scan.sub, Tape.bytes_of_fault h]

def bodyTape (a : String × List UInt8) : String × Tape := (a.1, { rest := a.2 })

theorem reads_scanAttribute (pool : ConstantPool) : Reads id (scanAttribute pool) (bodyTape <$> readAttribute pool) := by
  have hhead : Reads id (Scan.checked do return (← Scan.u2, ← Scan.sub (← Scan.u4)))
      (do return (← Reader.u2, ← (fun data => ({ rest := data } : Tape)) <$> Reader.bytes (← Reader.u4))) :=
    Agrees.checked <| (tracks_u2 tellsEnd_id).agrees.bind fun _ => (tracks_u4 tellsEnd_id).bind fun n =>
      (tracks_sub n).bind fun _ => tracks_pure _
  have hread : bodyTape <$> readAttribute pool = (do
      let a ← (do return (← Reader.u2, ← (fun data => ({ rest := data } : Tape)) <$> Reader.bytes (← Reader.u4)))
      return (← Reader.constant (pool.utf8 a.1), a.2)) := by
    unfold readAttribute
    simp [bodyTape, map_bind, bind_assoc]
  rw [hread]
  exact hhead.bind fun a => (reads_constant _).bind fun name => reads_pure (name, a.2)

theorem agrees_scanHandler (pool : ConstantPool) : Agrees id id (scanHandler pool) (readHandler pool) := by
  have hu2 := tracks_u2 tellsEnd_id
  refine hu2.agrees.bind fun start => hu2.bind fun stop => hu2.bind fun handler => ?_
  refine Tracks.word_bind tellsEnd_id 2 (fun type => ?_) ?_
  · dsimp only
    split
    · exact (tracks_pure _).agrees
    · exact (reads_constant _).bind_agrees fun _ => (tracks_pure _).agrees
  · exact keeps_pure _

theorem tracks_scanLine : Tracks id id scanLine readLine :=
  (tracks_u2 tellsEnd_id).bind fun _ => (tracks_u2 tellsEnd_id).bind fun _ => tracks_pure _

theorem u2_total (t : Tape) : ∃ n t', Scan.u2 t = .ok (n, t') := ⟨_, _, rfl⟩

/-- The slot is read before the names are looked up, and shows only when they are found. -/
theorem agrees_scanLocal (pool : ConstantPool) : Agrees id id (scanLocal pool) (readLocal pool) := by
  have hlast : ∀ (start length i j : Nat), Agrees id id
      (do
        let slot ← Scan.u2
        let name ← Scan.constant (pool.utf8 i)
        let desc ← Scan.constant (pool.utf8 j)
        return ({ name, desc, slot, start, stop := start + length } : LocalVariable))
      (do
        let name ← Reader.constant (pool.utf8 i)
        let desc ← Reader.constant (pool.utf8 j)
        let slot ← Reader.u2
        return ({ name, desc, slot, start, stop := start + length } : LocalVariable)) := by
    intro start length i j c
    obtain ⟨n, t, hu2⟩ := u2_total c.tape
    cases pool.utf8 i with
    | error d => rw [bind_ok hu2]; exact .thrown _
    | ok name =>
      cases pool.utf8 j with
      | error d => rw [bind_ok hu2]; exact .thrown _
      | ok desc => exact (tracks_u2 tellsEnd_id).agrees.bind (fun _ => tracks_pure _) c
  have hrefuse : ∀ (start length i : Nat), Refuses id
      (do
        let slot ← Scan.u2
        let name ← Scan.constant (pool.utf8 i)
        let desc ← Scan.constant (pool.utf8 0)
        return ({ name, desc, slot, start, stop := start + length } : LocalVariable))
      (do
        let name ← Reader.constant (pool.utf8 i)
        let desc ← Reader.constant (pool.utf8 0)
        let slot ← Reader.u2
        return ({ name, desc, slot, start, stop := start + length } : LocalVariable)) := by
    intro start length i
    rw [utf8_zero]
    cases pool.utf8 i with
    | error d => exact ⟨_, fun t ht => by rw [bind_ok (u2_of_fault ht)]; rfl, fun _ _ => rfl⟩
    | ok name => exact ⟨_, fun t ht => by rw [bind_ok (u2_of_fault ht)]; rfl, fun _ _ => rfl⟩
  -- Whichever index is the first to be cut off, the descriptor is looked up as number 0.
  refine Agrees.index_bind (fun start => Agrees.index_bind (fun length => Agrees.index_bind (fun i =>
    Agrees.index_bind (fun j => hlast start length i j) (hrefuse start length i))
    (hrefuse start length 0).index_bind) (hrefuse start 0 0).index_bind.index_bind)
    (hrefuse 0 0 0).index_bind.index_bind.index_bind

theorem reads_scanTableBody (pool : ConstantPool) (name : String) :
    Reads id (scanTableBody pool name)
      (if name = "LineNumberTable" then do return { lines := ← counted readLine }
        else if name = "LocalVariableTable" then do return { locals := ← counted (readLocal pool) }
        else return {}) := by
  refine Agrees.checked ?_
  split
  · unfold counted
    rw [bind_assoc]
    exact (tracks_u2 tellsEnd_id).agrees.bind fun n => (tracks_scanLine.times n).bind fun _ => tracks_pure _
  · split
    · exact ((agrees_scanLocal pool).counted tellsEnd_id).agrees.bind fun _ => tracks_pure _
    · exact (tracks_pure _).agrees

theorem within_map {α β : Type} (f : α → β) (r : Reader α) (data : List UInt8) :
    Reader.within (f <$> r) data = f <$> Reader.within r data := by
  funext c
  rw [map_apply, Reader.within, Reader.within, map_apply]
  cases r { rest := data } <;> rfl

theorem reads_scanCodeTable (pool : ConstantPool) : Reads id (scanCodeTable pool) (readCodeTable pool) := by
  refine (reads_scanAttribute pool).bind_image fun a => ?_
  obtain ⟨name, data⟩ := a
  have hbody := (reads_scanTableBody pool name).within data
  dsimp only [bodyTape]
  by_cases hlines : name = "LineNumberTable"
  · rw [if_pos hlines, bind_pure_comp, within_map] at hbody
    rw [if_pos hlines, bind_pure_comp]
    exact hbody
  · by_cases hlocals : name = "LocalVariableTable"
    · rw [if_neg hlines, if_pos hlocals, bind_pure_comp, within_map] at hbody
      rw [if_neg hlines, if_pos hlocals, bind_pure_comp]
      exact hbody
    · rw [if_neg hlines, if_neg hlocals] at hbody
      rw [if_neg hlines, if_neg hlocals]
      exact hbody

end JvmLint.ClassFile
