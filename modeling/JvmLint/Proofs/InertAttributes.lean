import JvmLint.Proofs.ClassImage
import JvmLint.Proofs.SideBySide

/-!
# Attributes that nothing looks at

Classes, fields, methods and code each interpret attributes of a few names.
Attributes of other names, whatever they hold, can be put anywhere among the
attributes of any of them, and the file parses to the same class or is refused
for the same reason.
-/

namespace JvmLint.ClassFile

def AttributeInfo.Ignored (pool : ConstantPool) (interpreted : List String) (a : AttributeInfo) : Prop :=
  ∃ name, pool.utf8 a.name = .ok name ∧ name ∉ interpreted

section
variable (pool : ConstantPool)

inductive MethodAttribute.Extended : MethodAttribute → MethodAttribute → Prop
  | plain (a : AttributeInfo) : Extended (.plain a) (.plain a)
  | code (name : Nat) (c : CodeInfo) {as : List AttributeInfo} :
    Padded Eq (AttributeInfo.Ignored pool ["LineNumberTable", "LocalVariableTable"]) c.attributes as →
      Extended (.code name c) (.code name { c with attributes := as })

structure FieldExtended (x y : MemberInfo AttributeInfo) : Prop where
  head : y = { x with attributes := y.attributes }
  attributes : Padded Eq (AttributeInfo.Ignored pool []) x.attributes y.attributes

structure MethodExtended (x y : MemberInfo MethodAttribute) : Prop where
  head : y = { x with attributes := y.attributes }
  attributes : Padded (MethodAttribute.Extended pool)
    (fun b => ∃ a, b = .plain a ∧ a.Ignored pool ["Code", "Exceptions"]) x.attributes y.attributes

end

/-- The second file is the first with ignored attributes put in. -/
structure ClassImage.Extended (f g : ClassImage) : Prop where
  head : g = { f with fields := g.fields, methods := g.methods, attributes := g.attributes }
  fields : List.Forall₂ (FieldExtended f.pool) f.fields g.fields
  methods : List.Forall₂ (MethodExtended f.pool) f.methods g.methods
  attributes : Padded Eq (AttributeInfo.Ignored f.pool ["SourceFile"]) f.attributes g.attributes

section
variable {pool : ConstantPool}

/-! ## One attribute -/

theorem alike_readAttribute {a : AttributeInfo} (h : a.WellFormed) :
    Alike Eq (readAttribute pool) a.bytes (readAttribute pool) a.bytes := by
  refine alike_bind_same (takes_u2 h.1) (alike_bind_same (takes_u4 h.2) ?_)
  exact alike_bind_last (takes_bytes a.body) ((alike_constant _).bind_pure fun name => (name, a.body))

/-- What is made of an attribute does not depend on where it stands. -/
theorem alike_attribute {α : Type} {a : AttributeInfo} (h : a.WellFormed) {f : String × List UInt8 → Reader α}
    (hf : ∀ name body, Alike Eq (f (name, body)) [] (f (name, body)) []) :
    Alike Eq (readAttribute pool >>= f) a.bytes (readAttribute pool >>= f) a.bytes := by
  refine (alike_readAttribute h).bind_end ?_
  rintro ⟨name, body⟩ _ rfl
  exact hf name body

theorem alike_readMethodAttribute {a : AttributeInfo} (h : a.WellFormed) (m : Method) :
    Alike Eq (readMethodAttribute pool m) a.bytes (readMethodAttribute pool m) a.bytes := by
  refine alike_attribute h fun name body => ?_
  dsimp only
  split
  · exact ((alike_within_self _ _).noting _ _).bind_pure _
  split
  · exact (alike_within_self _ _).bind_pure _
  · exact alike_pure rfl

theorem alike_readClassAttribute {a : AttributeInfo} (h : a.WellFormed) (c : Class) :
    Alike Eq (readClassAttribute pool c) a.bytes (readClassAttribute pool c) a.bytes := by
  refine alike_attribute h fun name body => ?_
  dsimp only
  split
  · exact (alike_within_self _ _).bind_pure _
  · exact alike_pure rfl

theorem alike_readCodeTable {a : AttributeInfo} (h : a.WellFormed) :
    Alike Eq (readCodeTable pool) a.bytes (readCodeTable pool) a.bytes := by
  refine alike_attribute h fun name body => ?_
  dsimp only
  split
  · exact (alike_within_self _ _).bind_pure _
  split
  · exact (alike_within_self _ _).bind_pure _
  · exact alike_pure rfl

/-- An attribute of a known name. -/
theorem takes_attribute {α : Type} {a : AttributeInfo} {name : String} (h : a.WellFormed) (hname : pool.utf8 a.name = .ok name)
    {f : String × List UInt8 → Reader α} {x : α} (hf : f (name, a.body) = pure x) (pos : Nat) :
    Takes (readAttribute pool >>= f) pos a.bytes x := by
  refine (takes_readAttribute h.1 hname h.2 pos).bind_end ?_
  rw [hf]
  exact takes_pure x _

/-! ## Attribute lists -/

theorem alike_readHandler {h : HandlerInfo} (hh : h.WellFormed) :
    Alike Eq (readHandler pool) h.bytes (readHandler pool) h.bytes := by
  obtain ⟨hstart, hstop, hhandler, htype⟩ := hh
  refine alike_bind_same (takes_u2 hstart) (alike_bind_same (takes_u2 hstop) ?_)
  refine alike_bind_same (takes_u2 hhandler) ?_
  refine alike_bind_last (takes_u2 htype) ?_
  dsimp only
  split
  · exact alike_pure rfl
  · exact (alike_constant _).bind_pure _

/-- Code with and without ignored attributes reads the same. -/
theorem alike_readCode {c : CodeInfo} {as : List AttributeInfo} (hc : c.WellFormed)
    (hc' : CodeInfo.WellFormed { c with attributes := as })
    (h : Padded Eq (AttributeInfo.Ignored pool ["LineNumberTable", "LocalVariableTable"]) c.attributes as) :
    Alike Eq (readCode pool) c.bytes (readCode pool) { c with attributes := as }.bytes := by
  obtain ⟨_, _, hcode, hhandlers, hhandler, hattributes, hattribute⟩ := hc
  obtain ⟨_, _, _, _, _, hattributes', hattribute'⟩ := hc'
  have hlist : Alike Eq (counted (readHandler pool)) (listed HandlerInfo.bytes c.handlers) (counted (readHandler pool))
      (listed HandlerInfo.bytes c.handlers) := by
    refine alike_counted_eq (R := Eq) (List.forall₂_refl c.handlers) hhandlers ?_
    rintro x hx _ _ rfl
    exact alike_readHandler (hhandler x hx)
  have htables : Alike (Padded Eq (· = {})) (counted (readCodeTable pool)) (listed AttributeInfo.bytes c.attributes)
      (counted (readCodeTable pool)) (listed AttributeInfo.bytes as) := by
    refine alike_counted h hattributes hattributes' ?_ ?_
    · rintro x hx _ _ rfl
      exact alike_readCodeTable (hattribute x hx)
    · rintro y hy ⟨name, hname, hother⟩
      simp only [List.mem_cons, List.not_mem_nil, or_false, not_or] at hother
      refine ⟨{}, rfl, takes_attribute (hattribute' y hy) hname ?_⟩
      dsimp only
      rw [if_neg hother.1, if_neg hother.2]
  refine alike_bind_same (takes_skip (be2 c.maxStack ++ be2 c.maxLocals)) ?_
  refine alike_bind_same (takes_u4 hcode) ?_
  refine alike_bind_same (takes_bytes c.code) ?_
  refine (alike_outcome (decode pool c.code)).bind_still ?_
  rintro is _ rfl
  refine hlist.bind ?_
  rintro handlers _ rfl
  refine htables.bind_end fun tables tables' hpad => ?_
  -- A table that was put in adds neither lines nor locals.
  have hlines : tables'.flatMap (·.lines) = tables.flatMap (·.lines) := hpad.flatMap_eq (by rintro _ rfl; rfl)
  have hlocals : tables'.flatMap (·.locals) = tables.flatMap (·.locals) := hpad.flatMap_eq (by rintro _ rfl; rfl)
  dsimp only
  rw [hlines, hlocals]
  exact alike_pure rfl

/-- A code attribute is taken up the same with and without ignored attributes in it. -/
theorem alike_methodAttribute {a b : MethodAttribute} (ha : a.WellFormed pool) (hb : b.WellFormed pool)
    (h : a.Extended pool b) (m : Method) :
    Alike Eq (readMethodAttribute pool m) a.bytes (readMethodAttribute pool m) b.bytes := by
  cases h with
  | plain a => exact alike_readMethodAttribute ha.1 m
  | @code name c as hpad =>
    obtain ⟨hinfo, hname, hc⟩ := ha
    obtain ⟨hinfo', _, hc'⟩ := hb
    refine (alike_of_takes (takes_readAttribute hinfo.1 hname hinfo.2)
      (takes_readAttribute hinfo'.1 hname hinfo'.2) (R := fun p q => p = ("Code", c.bytes) ∧
        q = ("Code", CodeInfo.bytes { c with attributes := as })) ⟨rfl, rfl⟩).bind_end ?_
    rintro _ _ ⟨rfl, rfl⟩
    dsimp only
    rw [if_pos rfl, if_pos rfl]
    exact ((alike_readCode hc hc' hpad).within.noting _ _).bind_pure _

/-! ## Members -/

/-- Flags, name and descriptor are read the same on both sides. -/
theorem alike_memberHead {α : Type} {access name desc : Nat} {enc enc' : List UInt8}
    {f : Nat → String → String → Reader α} (haccess : access < 0x10000) (hname : name < 0x10000)
    (hdesc : desc < 0x10000) (hf : ∀ n d, Alike Eq (f access n d) enc (f access n d) enc') :
    Alike Eq (do
      let access ← Reader.index
      let name ← Reader.constant (pool.utf8 (← Reader.index))
      let desc ← Reader.constant (pool.utf8 (← Reader.index))
      f access name desc) (be2 access ++ (be2 name ++ (be2 desc ++ enc))) (do
      let access ← Reader.index
      let name ← Reader.constant (pool.utf8 (← Reader.index))
      let desc ← Reader.constant (pool.utf8 (← Reader.index))
      f access name desc) (be2 access ++ (be2 name ++ (be2 desc ++ enc'))) := by
  refine alike_bind_same (takes_index haccess) ?_
  refine alike_bind_same (takes_index hname) ((alike_constant _).bind_still ?_)
  rintro n _ rfl
  refine alike_bind_same (takes_index hdesc) ((alike_constant _).bind_still ?_)
  rintro d _ rfl
  exact hf n d

theorem alike_readField {x y : MemberInfo AttributeInfo} (hx : x.WellFormed AttributeInfo.WellFormed)
    (hy : y.WellFormed AttributeInfo.WellFormed) (h : FieldExtended pool x y) :
    Alike Eq (readField pool) (x.bytes AttributeInfo.bytes) (readField pool) (y.bytes AttributeInfo.bytes) := by
  obtain ⟨haccess, hname, hdesc, hlen, hall⟩ := hx
  obtain ⟨_, _, _, hlen', hall'⟩ := hy
  rw [h.head]
  refine alike_memberHead haccess hname hdesc fun n d => ?_
  have hlist : Alike (Padded Eq fun _ => True) (counted (readAttribute pool)) (listed AttributeInfo.bytes x.attributes)
      (counted (readAttribute pool)) (listed AttributeInfo.bytes y.attributes) := by
    refine alike_counted h.attributes hlen hlen' ?_ ?_
    · rintro a ha _ _ rfl
      exact alike_readAttribute (hall a ha)
    · rintro b hb ⟨name, hname, _⟩
      exact ⟨_, trivial, takes_readAttribute (hall' b hb).1 hname (hall' b hb).2⟩
  exact hlist.bind_end fun _ _ _ => alike_pure rfl

theorem alike_readMethod {x y : MemberInfo MethodAttribute} (hx : x.WellFormed (MethodAttribute.WellFormed pool))
    (hy : y.WellFormed (MethodAttribute.WellFormed pool)) (h : MethodExtended pool x y) :
    Alike Eq (readMethod pool) (x.bytes MethodAttribute.bytes) (readMethod pool) (y.bytes MethodAttribute.bytes) := by
  obtain ⟨haccess, hname, hdesc, hlen, hall⟩ := hx
  obtain ⟨_, _, _, hlen', hall'⟩ := hy
  rw [h.head]
  refine alike_memberHead haccess hname hdesc fun n d => alike_bind_takes (takes_u2 hlen) (takes_u2 hlen') ?_
  refine alike_iterate h.attributes ?_ ?_ _
  · exact fun a ha b hb hab m => alike_methodAttribute (hall a ha) (hall' b hb) hab m
  · rintro _ hb ⟨a, rfl, name, hname, hother⟩ m
    simp only [List.mem_cons, List.not_mem_nil, or_false, not_or] at hother
    refine takes_attribute (hall' _ hb).1 hname ?_
    dsimp only
    rw [if_neg hother.1, if_neg hother.2]

end

/-! ## Classes -/

theorem alike_readSuper (pool : ConstantPool) {super : Nat} (h : super < 0x10000) :
    Alike Eq (readSuper pool) (be2 super) (readSuper pool) (be2 super) := by
  refine alike_bind_last (takes_index h) ?_
  split
  · exact alike_pure rfl
  · exact alike_constant _

theorem alike_className (pool : ConstantPool) {i : Nat} (h : i < 0x10000) :
    Alike Eq (do Reader.constant (pool.className (← Reader.index))) (be2 i)
      (do Reader.constant (pool.className (← Reader.index))) (be2 i) :=
  alike_bind_last (takes_index h) (alike_constant _)

theorem alike_readClass {f g : ClassImage} (hf : f.WellFormed) (hg : g.WellFormed) (h : f.Extended g) :
    Alike Eq readClass f.bytes readClass g.bytes := by
  have hpool : g.pool = f.pool := by rw [h.head]; rfl
  have hmethods' := hpool ▸ hg.methods.2
  have hinterfaces := alike_times_eq (R := Eq) (List.forall₂_refl f.interfaces) (by
    rintro i hi _ _ rfl
    exact alike_className f.pool (hf.interfaces.2 i hi))
  have hfields := alike_counted_eq h.fields hf.fields.1 fun x hx y hy => alike_readField (hf.fields.2 x hx) (hg.fields.2 y hy)
  have hmethods := alike_counted_eq h.methods hf.methods.1 fun x hx y hy =>
    alike_readMethod (hf.methods.2 x hx) (hmethods' y hy)
  have hbytes : g.bytes = ClassImage.bytes
      { f with fields := g.fields, methods := g.methods, attributes := g.attributes } := congrArg _ h.head
  rw [hbytes]
  unfold readClass
  refine alike_bind_same (takes_u4 (by decide)) ?_
  dsimp only
  rw [if_neg (by decide)]
  refine alike_bind_same (takes_skip (be2 f.minor)) ?_
  refine alike_bind_same (takes_u2 hf.version.2) ?_
  refine alike_bind_same (ClassImage.takes_pool hf) ?_
  refine alike_bind_same (takes_index hf.head.1) ?_
  refine alike_bind_same (takes_index hf.head.2.1) ((alike_constant _).bind_still ?_)
  rintro name _ rfl
  refine (alike_readSuper f.pool hf.head.2.2).bind ?_
  rintro super _ rfl
  rw [show listed be2 f.interfaces = be2 f.interfaces.length ++ f.interfaces.flatMap be2 from rfl, List.append_assoc,
    List.append_assoc]
  refine alike_bind_same (fun pos => (takes_u2 hf.interfaces.1 pos).noting _ _) (hinterfaces.bind ?_)
  rintro interfaces _ rfl
  refine (hfields.noting _ _).bind ?_
  rintro fields _ rfl
  refine (hmethods.noting _ _).bind ?_
  rintro methods _ rfl
  refine alike_bind_takes (fun pos => (takes_u2 hf.attributes.1 pos).noting _ _)
    (fun pos => (takes_u2 hg.attributes.1 pos).noting _ _) (alike_iterate h.attributes ?_ ?_ _)
  · rintro a ha _ _ rfl c
    exact alike_readClassAttribute (hf.attributes.2 a ha) c
  · rintro b hb ⟨text, hname, hother⟩ c
    refine takes_attribute (hg.attributes.2 b hb) hname ?_
    dsimp only
    rw [if_neg (by simpa using hother)]

/-- Attributes of other names than those interpreted where they stand change nothing, whatever they hold
and wherever they are put: the class is the same, and so is the defect of a file that is refused. -/
theorem parse_extended {f g : ClassImage} (hf : f.WellFormed) (hg : g.WellFormed) (h : f.Extended g) :
    parse g.bytes = parse f.bytes := by
  have halike := alike_readClass hf hg h 0 0 [] []
  rw [List.append_nil, List.append_nil] at halike
  rw [parse_eq_read, parse_eq_read]
  rcases halike with ⟨c, _, rfl, hc, hc'⟩ | ⟨e, he, he'⟩
  · rw [hc, hc']
  · rw [he, he']

/-- A class `A` with a field and a method whose code has a line table. Number 7 is an eight-byte constant. -/
def plainImage : ClassImage :=
  { minor := 0, major := 61
    constants := [.utf8 (utf8Bytes "A"), .class 1, .utf8 (utf8Bytes "Code"), .utf8 (utf8Bytes "()V"),
      .utf8 (utf8Bytes "LineNumberTable"), .utf8 (utf8Bytes "Exceptions"), .other 5 [0, 0, 0, 0, 0, 0, 0, 1]]
    access := 0x21, this := 2, super := 0, interfaces := []
    fields := [{ access := 2, name := 1, desc := 4, attributes := [] }]
    methods := [{ access := 1, name := 1, desc := 4, attributes := [.code 3 {
      maxStack := 0, maxLocals := 1, code := [0xb1], handlers := []
      attributes := [{ name := 5, body := [0, 1, 0, 0, 0, 7] }] }] }]
    attributes := [] }

/-- The same with four attributes more, each of a name that is interpreted somewhere else. -/
def extendedImage : ClassImage :=
  { plainImage with
    fields := [{ access := 2, name := 1, desc := 4, attributes := [{ name := 3, body := [1, 2] }] }]
    methods := [{ access := 1, name := 1, desc := 4, attributes := [.plain { name := 5, body := [] }, .code 3 {
      maxStack := 0, maxLocals := 1, code := [0xb1], handlers := []
      attributes := [{ name := 5, body := [0, 1, 0, 0, 0, 7] }, { name := 3, body := [9] }] }] }]
    attributes := [{ name := 6, body := [0, 1] }] }

theorem parse_extended_plainImage :
    parse extendedImage.bytes = .ok
      { name := "A", access := .publicClass, super := "", major := 61
        fields := [{ name := "A", desc := "()V", access := ⟨2⟩ }]
        methods := [{ name := "A", desc := "()V", access := ⟨1⟩, body := [.line 7, .real { op := .vreturn }] }] } := by
  have hf : plainImage.WellFormed :=
    ⟨by decide, by decide, by decide, by decide, by decide, by decide, by decide, by decide⟩
  have hg : extendedImage.WellFormed :=
    ⟨by decide, by decide, by decide, by decide, by decide, by decide, by decide, by decide⟩
  have h : plainImage.Extended extendedImage := by
    refine ⟨rfl, .cons ⟨rfl, .insert ⟨"Code", rfl, by decide⟩ .nil⟩ .nil, .cons ⟨rfl, ?_⟩ .nil,
      .insert ⟨"Exceptions", rfl, by decide⟩ .nil⟩
    refine .insert ⟨_, rfl, "LineNumberTable", rfl, by decide⟩ (.keep (.code _ _ ?_) .nil)
    exact padded_insert (P := AttributeInfo.Ignored _ _) (y := { name := 3, body := [9] }) ⟨"Code", rfl, by decide⟩ [_] []
  rw [parse_extended hf hg h]
  decide +kernel

end JvmLint.ClassFile
