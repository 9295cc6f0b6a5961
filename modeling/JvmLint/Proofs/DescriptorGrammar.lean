import JvmLint.Bytecode.Descriptor

/-!
# The language of descriptors

`scan` takes one type from the front of a text and gives back the rest. On the
way in it undoes `chars` (`scan_chars`), on the way out it has read the `chars`
of a well-formed type (`scan_eq_ok`), so a text has at most one reading. The
grammar is stated on texts alone (`IsField`, `Splits`) and tied to types last.
-/

namespace JvmLint

/-! ## Well-formed types -/

/-- Class names are not empty and have no semicolon, which would end them early. -/
def ValueType.WellFormed : ValueType → Prop
  | .primitive _ => True
  | .object name => name.toList ≠ [] ∧ ';' ∉ name.toList
  | .array t => t.WellFormed

def ReturnType.WellFormed : ReturnType → Prop
  | .void => True
  | .value t => t.WellFormed

instance ValueType.decidableWellFormed : DecidablePred ValueType.WellFormed
  | .primitive _ => .isTrue trivial
  | .object name => inferInstanceAs (Decidable (name.toList ≠ [] ∧ ';' ∉ name.toList))
  | .array t => decidableWellFormed t

namespace Descriptor

/-! ## One type from the front -/

theorem ofLetter?_eq_some {c : Char} {p : Primitive} : Primitive.ofLetter? c = some p ↔ c = p.letter := by
  constructor
  · intro h
    unfold Primitive.ofLetter? at h
    split at h <;> cases h <;> rfl
  · rintro rfl
    cases p <;> rfl

theorem scanName_append {name : List Char} (h : ';' ∉ name) (rest : List Char) :
    scanName (name ++ ';' :: rest) = .ok (name, rest) := by
  induction name with
  | nil => rfl
  | cons c name ih =>
    have hc : c ≠ ';' := fun heq => h (by simp [heq])
    rw [List.cons_append, scanName.eq_3 _ _ (fun heq => hc heq), ih fun hmem => h (List.mem_cons_of_mem c hmem)]
    rfl

theorem scanName_eq_ok {s name rest : List Char} (h : scanName s = .ok (name, rest)) :
    s = name ++ ';' :: rest ∧ ';' ∉ name := by
  fun_induction scanName s generalizing name rest with
  | case1 => cases h
  | case2 rest => cases h; simp
  | case3 c s hc ih =>
    cases hs : scanName s with
    | error e => rw [hs] at h; cases h
    | ok found =>
      rw [hs] at h
      cases h
      obtain ⟨hsplit, hname⟩ := ih hs
      refine ⟨by rw [hsplit, List.cons_append], ?_⟩
      intro hmem
      rcases List.mem_cons.mp hmem with heq | hmem
      · exact hc heq.symm
      · exact hname hmem

theorem scan_chars : ∀ {t : ReturnType}, t.WellFormed → ∀ rest, scan (t.chars ++ rest) = .ok (t, rest)
  | .void, _, rest => rfl
  | .value (.primitive p), _, rest => by cases p <;> rfl
  | .value (.array t), h, rest => by
    have ht : scan (t.chars ++ rest) = .ok (.value t, rest) := scan_chars (t := .value t) h rest
    change scan ('[' :: (t.chars ++ rest)) = _
    simp only [scan, ht]
  | .value (.object name), h, rest => by
    have hname := scanName_append h.2 rest
    have hchars : (ReturnType.value (.object name)).chars ++ rest = 'L' :: (name.toList ++ ';' :: rest) := by
      simp [ReturnType.chars, ValueType.chars]
    rw [hchars]
    simp only [scan, hname]
    cases hn : name.toList with
    | nil => exact absurd hn h.1
    | cons c cs =>
      dsimp only
      rw [← hn, String.ofList_toList]

theorem scan_eq_ok {s rest : List Char} {t : ReturnType} (h : scan s = .ok (t, rest)) :
    s = t.chars ++ rest ∧ t.WellFormed := by
  fun_induction scan s generalizing t rest with
  | case1 => cases h
  | case2 s u rest' hs ih =>
    cases h
    obtain ⟨hsplit, hwf⟩ := ih hs
    exact ⟨by rw [hsplit]; rfl, hwf⟩
  | case3 => cases h
  | case4 => cases h
  | case5 => cases h
  | case6 s name rest' hne hs =>
    cases h
    obtain ⟨hsplit, hname⟩ := scanName_eq_ok hs
    refine ⟨by simp [hsplit, ReturnType.chars, ValueType.chars], ?_, ?_⟩
    · rw [String.toList_ofList]; exact hne
    · rw [String.toList_ofList]; exact hname
  | case7 => cases h
  | case8 s => cases h; exact ⟨rfl, trivial⟩
  | case9 c s _ _ _ p hp =>
    cases h
    obtain rfl := ofLetter?_eq_some.mp hp
    exact ⟨rfl, trivial⟩
  | case10 => cases h

/-! ## Complete descriptors -/

theorem chars_ne_nil (t : ValueType) : t.chars ≠ [] := by
  cases t <;> simp [ValueType.chars]

/-- No type starts with the parenthesis that closes a parameter list. -/
theorem chars_head_ne_close {t : ValueType} {c : Char} {cs : List Char} (h : t.chars = c :: cs) : c ≠ ')' := by
  rintro rfl
  cases t with
  | primitive p => cases p <;> cases h
  | object name => cases h
  | array t => cases h

theorem params_chars : ∀ {ts : List ValueType} {fuel : Nat}, (∀ t ∈ ts, t.WellFormed) → ts.length ≤ fuel →
    ∀ rest, params fuel (ts.flatMap (·.chars) ++ ')' :: rest) = .ok (ts, rest)
  | [], fuel, _, _, rest => by cases fuel <;> rfl
  | t :: ts, 0, _, hlen, rest => absurd hlen (by simp)
  | t :: ts, fuel + 1, hwf, hlen, rest => by
    have ih := params_chars (fun u hu => hwf u (List.mem_cons_of_mem t hu)) (Nat.le_of_succ_le_succ hlen) rest
    have hscan := scan_chars (t := .value t) (hwf t (by simp)) (ts.flatMap (·.chars) ++ ')' :: rest)
    rw [List.flatMap_cons, List.append_assoc]
    cases ht : t.chars with
    | nil => exact absurd ht (chars_ne_nil t)
    | cons c cs =>
      rw [show ReturnType.chars (.value t) = c :: cs from ht] at hscan
      rw [List.cons_append] at hscan ⊢
      rw [params.eq_4 _ _ _ fun heq => chars_head_ne_close ht heq, hscan]
      dsimp only
      rw [ih]
      rfl

theorem params_eq_ok {fuel : Nat} {s rest : List Char} {ts : List ValueType} (h : params fuel s = .ok (ts, rest)) :
    s = ts.flatMap (·.chars) ++ ')' :: rest ∧ ∀ t ∈ ts, t.WellFormed := by
  fun_induction params fuel s generalizing ts rest with
  | case1 => cases h
  | case2 fuel rest => cases h; simp
  | case3 => cases h
  | case4 => cases h
  | case5 => cases h
  | case6 fuel c s _ t rest' hs ih =>
    cases hp : params fuel rest' with
    | error e => rw [hp] at h; cases h
    | ok found =>
      rw [hp] at h
      cases h
      obtain ⟨hsplit, hwf⟩ := ih hp
      obtain ⟨hscan, ht⟩ := scan_eq_ok hs
      refine ⟨?_, ?_⟩
      · rw [hscan, hsplit, List.flatMap_cons, List.append_assoc]
        rfl
      · intro u hu
        rcases List.mem_cons.mp hu with rfl | hu
        · exact ht
        · exact hwf u hu

theorem length_le_flatMap_chars (ts : List ValueType) : ts.length ≤ (ts.flatMap (·.chars)).length := by
  induction ts with
  | nil => simp
  | cons t ts ih =>
    have ht : 0 < t.chars.length := List.length_pos_iff.mpr (chars_ne_nil t)
    rw [List.flatMap_cons, List.length_append, List.length_cons]
    omega

theorem field_eq_ok {s : List Char} {t : ValueType} : field s = .ok t ↔ t.WellFormed ∧ t.chars = s := by
  constructor
  · intro h
    unfold field at h
    split at h
    · cases h
    · cases h
    · rename_i u hs
      cases h
      obtain ⟨hsplit, hwf⟩ := scan_eq_ok hs
      exact ⟨hwf, by rw [hsplit, List.append_nil]; rfl⟩
    · cases h
  · rintro ⟨hwf, rfl⟩
    have hs := scan_chars (t := .value t) hwf []
    rw [List.append_nil] at hs
    unfold field
    rw [show t.chars = (ReturnType.value t).chars from rfl, hs]

theorem method_eq_ok {s : List Char} {mt : MethodType} :
    method s = .ok mt ↔ ((∀ t ∈ mt.params, t.WellFormed) ∧ mt.result.WellFormed) ∧
      '(' :: mt.params.flatMap (·.chars) ++ ')' :: mt.result.chars = s := by
  constructor
  · intro h
    unfold method at h
    split at h
    · rename_i s
      split at h
      · cases h
      · rename_i ps rest hp
        obtain ⟨hsplit, hwf⟩ := params_eq_ok hp
        split at h
        · cases h
        · rename_i r hr
          cases h
          obtain ⟨hrest, hresult⟩ := scan_eq_ok hr
          rw [List.append_nil] at hrest
          exact ⟨⟨hwf, hresult⟩, by rw [hsplit, hrest]; rfl⟩
        · cases h
    · cases h
  · rintro ⟨⟨hwf, hresult⟩, rfl⟩
    have hlen := length_le_flatMap_chars mt.params
    have hfuel : mt.params.length ≤ (mt.params.flatMap (·.chars) ++ ')' :: mt.result.chars).length := by
      rw [List.length_append]; omega
    have hp := params_chars hwf hfuel mt.result.chars
    have hr := scan_chars hresult []
    rw [List.append_nil] at hr
    rw [List.cons_append]
    simp only [method, hp, hr]

/-! ## The grammar -/

/-- Brackets, and then the letter of a primitive type or a class name between `L` and a semicolon. -/
def IsField (s : String) : Prop :=
  ∃ dims base, s.toList = List.replicate dims '[' ++ base ∧
    ((∃ c ∈ ['Z', 'C', 'B', 'S', 'I', 'F', 'J', 'D'], base = [c]) ∨
      ∃ name, name ≠ [] ∧ ';' ∉ name ∧ base = 'L' :: name ++ [';'])

/-- The parts of a method descriptor: field descriptors in parentheses, and one or `V` behind them. -/
structure Splits (s : String) (params : List String) (result : String) : Prop where
  text : s.toList = '(' :: params.flatMap String.toList ++ ')' :: result.toList
  params : ∀ p ∈ params, IsField p
  result : IsField result ∨ result = "V"

theorem isField_text : ∀ {t : ValueType}, t.WellFormed → IsField t.text
  | .primitive p, _ => by
    refine ⟨0, [p.letter], by simp [ValueType.text, ValueType.chars], .inl ⟨p.letter, ?_, rfl⟩⟩
    cases p <;> simp [Primitive.letter]
  | .object name, h =>
    ⟨0, 'L' :: name.toList ++ [';'], by simp [ValueType.text, ValueType.chars], .inr ⟨name.toList, h.1, h.2, rfl⟩⟩
  | .array t, h => by
    obtain ⟨dims, base, hs, hbase⟩ := isField_text (t := t) h
    refine ⟨dims + 1, base, ?_, hbase⟩
    rw [ValueType.text, String.toList_ofList] at hs ⊢
    rw [ValueType.chars, hs, List.replicate_succ, List.cons_append]

theorem exists_letter {c : Char} (h : c ∈ ['Z', 'C', 'B', 'S', 'I', 'F', 'J', 'D']) : ∃ p : Primitive, p.letter = c := by
  have hmap : c ∈ [Primitive.boolean, .char, .byte, .short, .int, .float, .long, .double].map Primitive.letter := h
  obtain ⟨p, _, hp⟩ := List.mem_map.mp hmap
  exact ⟨p, hp⟩

theorem IsField.exists_type {s : String} (h : IsField s) : ∃ t : ValueType, t.WellFormed ∧ t.text = s := by
  obtain ⟨dims, base, hs, hbase⟩ := h
  have hinner : ∃ t : ValueType, t.WellFormed ∧ t.chars = base := by
    rcases hbase with ⟨c, hc, rfl⟩ | ⟨name, hne, hsemi, rfl⟩
    · obtain ⟨p, rfl⟩ := exists_letter hc
      exact ⟨.primitive p, trivial, rfl⟩
    · refine ⟨.object (String.ofList name), ⟨?_, ?_⟩, ?_⟩
      · rwa [String.toList_ofList]
      · rwa [String.toList_ofList]
      · rw [ValueType.chars, String.toList_ofList]
  have hnested : ∀ n, ∃ t : ValueType, t.WellFormed ∧ t.chars = List.replicate n '[' ++ base := by
    intro n
    induction n with
    | zero => exact hinner
    | succ n ih =>
      obtain ⟨t, ht, hchars⟩ := ih
      exact ⟨.array t, ht, by rw [ValueType.chars, hchars, List.replicate_succ, List.cons_append]⟩
  obtain ⟨t, ht, hchars⟩ := hnested dims
  exact ⟨t, ht, by rw [ValueType.text, hchars, ← hs, String.ofList_toList]⟩

theorem exists_result {s : String} : (IsField s ∨ s = "V") ↔ ∃ r : ReturnType, r.WellFormed ∧ r.text = s := by
  constructor
  · rintro (h | rfl)
    · obtain ⟨t, ht, htext⟩ := h.exists_type
      exact ⟨.value t, ht, htext⟩
    · exact ⟨.void, trivial, rfl⟩
  · rintro ⟨r, hr, rfl⟩
    cases r with
    | void => exact .inr rfl
    | value t => exact .inl (isField_text hr)

theorem exists_params : ∀ {ps : List String}, (∀ p ∈ ps, IsField p) →
    ∃ ts : List ValueType, (∀ t ∈ ts, t.WellFormed) ∧ ts.map (·.text) = ps
  | [], _ => ⟨[], by simp, rfl⟩
  | p :: ps, h => by
    obtain ⟨t, ht, rfl⟩ := (h p (by simp)).exists_type
    obtain ⟨ts, hts, rfl⟩ := exists_params fun q hq => h q (List.mem_cons_of_mem _ hq)
    exact ⟨t :: ts, by simpa [ht] using hts, rfl⟩

end Descriptor

open Descriptor

/-! ## Reading texts -/

section
variable {α : Type} {x : Except DescriptorDefect α} {desc : String}

theorem mapError_fault_eq_ok {a : α} : x.mapError (·.fault desc) = .ok a ↔ x = .ok a := by
  cases x with
  | error d => exact ⟨nofun, nofun⟩
  | ok b =>
    constructor
    · intro h
      cases h
      rfl
    · intro h
      cases h
      rfl

theorem code_of_mapError_fault {e : Fault} (h : x.mapError (·.fault desc) = .error e) :
    e.code? = some .malformedDescriptor := by
  cases x with
  | error d => cases h; rfl
  | ok a => cases h

end

theorem ValueType.parse_eq_ok {s : String} {t : ValueType} : ValueType.parse s = .ok t ↔ t.WellFormed ∧ t.text = s := by
  rw [ValueType.parse, mapError_fault_eq_ok, field_eq_ok, ValueType.text]
  refine and_congr_right fun _ => ⟨fun h => ?_, fun h => ?_⟩
  · rw [h, String.ofList_toList]
  · rw [← h, String.toList_ofList]

theorem flatMap_toList_text (ts : List ValueType) :
    (ts.map (·.text)).flatMap String.toList = ts.flatMap (·.chars) := by
  rw [List.flatMap_map]
  exact congrArg (List.flatMap · ts) (funext fun t => String.toList_ofList)

theorem MethodType.parse_eq_ok {s : String} {mt : MethodType} :
    MethodType.parse s = .ok mt ↔ Splits s (mt.params.map (·.text)) mt.result.text ∧
      (∀ t ∈ mt.params, t.WellFormed) ∧ mt.result.WellFormed := by
  rw [MethodType.parse, mapError_fault_eq_ok, method_eq_ok]
  constructor
  · rintro ⟨⟨hparams, hresult⟩, hs⟩
    refine ⟨⟨?_, ?_, exists_result.mpr ⟨_, hresult, rfl⟩⟩, hparams, hresult⟩
    · rw [← hs, flatMap_toList_text, ReturnType.text, String.toList_ofList]
    · intro p hp
      obtain ⟨t, ht, rfl⟩ := List.mem_map.mp hp
      exact isField_text (hparams t ht)
  · rintro ⟨⟨hs, _, _⟩, hwf⟩
    refine ⟨hwf, ?_⟩
    rw [hs, flatMap_toList_text, ReturnType.text, String.toList_ofList]

theorem Descriptor.Splits.exists_method {s : String} {ps : List String} {r : String} (h : Splits s ps r) :
    ∃ mt, MethodType.parse s = .ok mt ∧ mt.params.map (·.text) = ps ∧ mt.result.text = r := by
  obtain ⟨ts, hts, rfl⟩ := exists_params h.params
  obtain ⟨result, hresult, rfl⟩ := exists_result.mp h.result
  exact ⟨⟨ts, result⟩, MethodType.parse_eq_ok.mpr ⟨h, hts, hresult⟩, rfl, rfl⟩

/-- Reading accepts exactly the descriptors of the grammar and gives the type whose descriptor it was.
A method descriptor can be taken apart in one way only, into the texts of the types it is read as.
Everything else is refused with the code of malformed descriptors. -/
theorem descriptor_grammar :
    (∀ s, (∃ t, ValueType.parse s = .ok t) ↔ IsField s) ∧
    (∀ s t, ValueType.parse s = .ok t ↔ t.WellFormed ∧ t.text = s) ∧
    (∀ s, (∃ mt, MethodType.parse s = .ok mt) ↔ ∃ ps r, Splits s ps r) ∧
    (∀ s mt, MethodType.parse s = .ok mt →
      ∀ ps r, Splits s ps r ↔ mt.params.map (·.text) = ps ∧ mt.result.text = r) ∧
    (∀ s e, ValueType.parse s = .error e → e.code? = some .malformedDescriptor) ∧
    ∀ s e, MethodType.parse s = .error e → e.code? = some .malformedDescriptor := by
  refine ⟨fun s => ⟨?_, ?_⟩, fun s t => ValueType.parse_eq_ok, fun s => ⟨?_, ?_⟩, ?_,
    fun s e => code_of_mapError_fault, fun s e => code_of_mapError_fault⟩
  · rintro ⟨t, ht⟩
    obtain ⟨hwf, rfl⟩ := ValueType.parse_eq_ok.mp ht
    exact isField_text hwf
  · intro h
    obtain ⟨t, ht⟩ := h.exists_type
    exact ⟨t, ValueType.parse_eq_ok.mpr ht⟩
  · rintro ⟨mt, hmt⟩
    exact ⟨_, _, (MethodType.parse_eq_ok.mp hmt).1⟩
  · rintro ⟨ps, r, h⟩
    obtain ⟨mt, hmt, _⟩ := h.exists_method
    exact ⟨mt, hmt⟩
  · intro s mt hmt ps r
    constructor
    · intro h
      obtain ⟨mt', hmt', hps, hr⟩ := h.exists_method
      rw [hmt] at hmt'
      cases hmt'
      exact ⟨hps, hr⟩
    · rintro ⟨rfl, rfl⟩
      exact (MethodType.parse_eq_ok.mp hmt).1

/-- Parentheses and brackets in a class name end nothing, and `V` is no element and no parameter. -/
theorem descriptor_grammar_punctuation :
    (∀ ps r, Splits "(I[[La)(b;J)[LV;" ps r ↔ ["I", "[[La)(b;", "J"] = ps ∧ "[LV;" = r) ∧
    ValueType.parse "[[La)(b;" = .ok (.array (.array (.object "a)(b"))) ∧
    (∃ e, ValueType.parse "[V" = .error e ∧ e.code? = some .malformedDescriptor) ∧
    ∃ e, MethodType.parse "(V)V" = .error e ∧ e.code? = some .malformedDescriptor := by
  obtain ⟨_, hfield, _, hmethod, hfieldCode, hmethodCode⟩ := descriptor_grammar
  have hread : MethodType.parse "(I[[La)(b;J)[LV;" = .ok
      { params := [.primitive .int, .array (.array (.object "a)(b")), .primitive .long]
        result := .value (.array (.object "V")) } := rfl
  exact ⟨hmethod _ _ hread, (hfield _ _).mpr ⟨by decide, rfl⟩, ⟨_, rfl, hfieldCode "[V" _ rfl⟩,
    _, rfl, hmethodCode "(V)V" _ rfl⟩

end JvmLint
