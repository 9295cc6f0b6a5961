import JvmLint.Proofs.RoundTrip

/-!
# Class files as values

A class file item by item, before anything in it is interpreted: constants,
members with their attributes, and code attributes opened up as far as their own
attributes. `ClassImage.bytes` writes counts, lengths and items one after the
other; `WellFormed` says that all numbers fit the fields they are written to.
-/

namespace JvmLint.ClassFile

/-! ## Constants -/

inductive ConstantInfo where
  | utf8 (text : List UInt8)
  | class (name : Nat)
  | member (tag : UInt8) (owner signature : Nat)
  | nameAndType (name desc : Nat)
  | invokeDynamic (bootstrap signature : Nat)
  /-- A constant that is not looked into. -/
  | other (tag : UInt8) (payload : List UInt8)
deriving DecidableEq, Repr, Inhabited

def payloadSize (tag : UInt8) : Option Nat :=
  if tag = 3 || tag = 4 || tag = 17 then some 4
  else if tag = 5 || tag = 6 then some 8
  else if tag = 8 || tag = 16 || tag = 19 || tag = 20 then some 2
  else if tag = 15 then some 3
  else none

namespace ConstantInfo

def tag : ConstantInfo → UInt8
  | utf8 _ => 1
  | .class _ => 7
  | member tag _ _ => tag
  | nameAndType _ _ => 12
  | invokeDynamic _ _ => 18
  | other tag _ => tag

def payload : ConstantInfo → List UInt8
  | utf8 text => be2 text.length ++ text
  | .class name => be2 name
  | member _ owner signature => be2 owner ++ be2 signature
  | nameAndType name desc => be2 name ++ be2 desc
  | invokeDynamic bootstrap signature => be2 bootstrap ++ be2 signature
  | other _ payload => payload

def bytes (c : ConstantInfo) : List UInt8 := c.tag :: c.payload

def constant : ConstantInfo → Constant
  | utf8 text => .utf8 (ModifiedUtf8.decode text)
  | .class name => .class name
  | member tag owner signature => .member tag.toNat owner signature
  | nameAndType name desc => .nameAndType name desc
  | invokeDynamic _ signature => .invokeDynamic signature
  | other tag _ => .other tag.toNat

def WellFormed : ConstantInfo → Prop
  | utf8 text => text.length < 0x10000
  | .class name => name < 0x10000
  | member tag owner signature => (tag = 9 ∨ tag = 10 ∨ tag = 11) ∧ owner < 0x10000 ∧ signature < 0x10000
  | nameAndType name desc => name < 0x10000 ∧ desc < 0x10000
  | invokeDynamic bootstrap signature => bootstrap < 0x10000 ∧ signature < 0x10000
  | other tag payload => payloadSize tag = some payload.length

instance : DecidablePred WellFormed
  | utf8 _ => inferInstanceAs (Decidable (_ < _))
  | .class _ => inferInstanceAs (Decidable (_ < _))
  | member .. => inferInstanceAs (Decidable (_ ∧ _ ∧ _))
  | nameAndType .. => inferInstanceAs (Decidable (_ ∧ _))
  | invokeDynamic .. => inferInstanceAs (Decidable (_ ∧ _))
  | other .. => inferInstanceAs (Decidable (_ = _))

def numbered (cs : List ConstantInfo) : List Constant :=
  cs.flatMap fun c => c.constant :: if ConstantPool.isDouble c.tag.toNat then [.unused] else []

end ConstantInfo

/-- Bytes that are skipped before something is given. -/
theorem takes_skipped {α : Type} {n : Nat} {enc : List UInt8} (h : enc.length = n) (a : α) (pos : Nat) :
    Takes (do Reader.skip n; return a) pos enc a := by
  subst h
  exact (takes_skip enc pos).bind_pure

theorem takes_skipped_twice {α : Type} {m n : Nat} {enc : List UInt8} (h : enc.length = m + n) (a : α) (pos : Nat) :
    Takes (do Reader.skip m; Reader.skip n; return a) pos enc a := by
  have hm : (enc.take m).length = m := by simp; omega
  have hn : (enc.drop m).length = n := by simp; omega
  have hfirst := takes_skip (enc.take m) pos
  rw [hm] at hfirst
  have hboth := hfirst.bind (f := fun _ => do Reader.skip n; return a) (takes_skipped hn a _)
  rwa [List.take_append_drop] at hboth

theorem takes_payload : ∀ {c : ConstantInfo}, c.WellFormed → ∀ number pos,
    Takes (ConstantPool.readConstant number c.tag.toNat) pos c.payload c.constant
  | .utf8 text, h, number, pos => (takes_u2 h pos).bind (takes_bytes text _).bind_pure
  | .class name, h, number, pos => (takes_u2 h pos).bind_pure
  | .member tag owner signature, h, number, pos => by
    obtain ⟨htag, howner, hsignature⟩ := h
    rcases htag with rfl | rfl | rfl
    all_goals exact (takes_u2 howner pos).bind (takes_u2 hsignature _).bind_pure
  | .nameAndType name desc, h, number, pos => (takes_u2 h.1 pos).bind (takes_u2 h.2 _).bind_pure
  | .invokeDynamic bootstrap signature, h, number, pos =>
    (takes_skip (be2 bootstrap) pos).bind (takes_u2 h.2 _).bind_pure
  | .other tag payload, h, number, pos => by
    change payloadSize tag = some payload.length at h
    unfold payloadSize at h
    split at h
    · rename_i htag
      have hlen := (Option.some.inj h).symm
      simp only [Bool.or_eq_true, decide_eq_true_eq] at htag
      rcases htag with (rfl | rfl) | rfl
      · exact takes_skipped hlen _ pos
      · exact takes_skipped hlen _ pos
      · exact takes_skipped_twice (m := 2) (n := 2) hlen _ pos
    split at h
    · rename_i htag
      have hlen := (Option.some.inj h).symm
      simp only [Bool.or_eq_true, decide_eq_true_eq] at htag
      rcases htag with rfl | rfl
      all_goals exact takes_skipped hlen _ pos
    split at h
    · rename_i htag
      have hlen := (Option.some.inj h).symm
      simp only [Bool.or_eq_true, decide_eq_true_eq] at htag
      rcases htag with ((rfl | rfl) | rfl) | rfl
      all_goals exact takes_skipped hlen _ pos
    split at h
    · rename_i htag
      have hlen := (Option.some.inj h).symm
      subst htag
      exact takes_skipped_twice (m := 1) (n := 2) hlen _ pos
    · cases h

open ConstantInfo (numbered)

theorem takes_constants : ∀ {cs : List ConstantInfo}, (∀ c ∈ cs, c.WellFormed) → ∀ number pos,
    Takes (ConstantPool.readFrom number (numbered cs).length) pos (cs.flatMap (·.bytes)) (numbered cs)
  | [], _, number, pos => takes_pure [] pos
  | c :: cs, h, number, pos => by
    have hfirst := takes_payload (h c (by simp)) number (pos + 1)
    have hrest := takes_constants fun d hd => h d (List.mem_cons_of_mem c hd)
    rw [List.flatMap_cons]
    cases hdouble : ConstantPool.isDouble c.tag.toNat with
    | true =>
      have hnumbers : numbered (c :: cs) = c.constant :: .unused :: numbered cs := by simp [numbered, hdouble]
      rw [hnumbers]
      refine (takes_u1 c.tag pos).bind (hfirst.bind ?_)
      rw [hdouble]
      exact (hrest _ _).bind_pure
    | false =>
      have hnumbers : numbered (c :: cs) = c.constant :: numbered cs := by simp [numbered, hdouble]
      rw [hnumbers]
      cases cs with
      | nil =>
        rw [List.flatMap_nil, List.append_nil]
        exact (takes_u1 c.tag pos).bind hfirst.bind_pure
      | cons d ds =>
        -- More constants follow, so the count is not at its last number.
        obtain ⟨k, hk⟩ : ∃ k, (numbered (d :: ds)).length = k + 1 := ⟨_, by rw [numbered, List.flatMap_cons]; rfl⟩
        have hnext := hrest (number + 1) (pos + 1 + c.payload.length)
        rw [hk] at hnext
        rw [List.length_cons, hk]
        refine (takes_u1 c.tag pos).bind (hfirst.bind ?_)
        rw [hdouble]
        exact hnext.bind_pure

/-! ## Attributes and members -/

def listed {α : Type} (encode : α → List UInt8) (xs : List α) : List UInt8 := be2 xs.length ++ xs.flatMap encode

structure AttributeInfo where
  name : Nat
  body : List UInt8
deriving DecidableEq, Repr, Inhabited

namespace AttributeInfo

def bytes (a : AttributeInfo) : List UInt8 := be2 a.name ++ (be4 a.body.length ++ a.body)

def WellFormed (a : AttributeInfo) : Prop := a.name < 0x10000 ∧ a.body.length < 0x100000000

instance : DecidablePred WellFormed := fun _ => inferInstanceAs (Decidable (_ ∧ _))

end AttributeInfo

structure HandlerInfo where
  start : Nat
  stop : Nat
  handler : Nat
  type : Nat
deriving DecidableEq, Repr, Inhabited

namespace HandlerInfo

def bytes (h : HandlerInfo) : List UInt8 := be2 h.start ++ (be2 h.stop ++ (be2 h.handler ++ be2 h.type))

def WellFormed (h : HandlerInfo) : Prop :=
  h.start < 0x10000 ∧ h.stop < 0x10000 ∧ h.handler < 0x10000 ∧ h.type < 0x10000

instance : DecidablePred WellFormed := fun _ => inferInstanceAs (Decidable (_ ∧ _ ∧ _ ∧ _))

end HandlerInfo

structure CodeInfo where
  maxStack : Nat
  maxLocals : Nat
  code : List UInt8
  handlers : List HandlerInfo
  attributes : List AttributeInfo
deriving DecidableEq, Repr, Inhabited

namespace CodeInfo

def bytes (c : CodeInfo) : List UInt8 :=
  (be2 c.maxStack ++ be2 c.maxLocals) ++ (be4 c.code.length ++ (c.code ++
    (listed HandlerInfo.bytes c.handlers ++ listed AttributeInfo.bytes c.attributes)))

def WellFormed (c : CodeInfo) : Prop :=
  c.maxStack < 0x10000 ∧ c.maxLocals < 0x10000 ∧ c.code.length < 0x100000000 ∧
    c.handlers.length < 0x10000 ∧ (∀ h ∈ c.handlers, h.WellFormed) ∧
    c.attributes.length < 0x10000 ∧ ∀ a ∈ c.attributes, a.WellFormed

instance : DecidablePred WellFormed := fun _ => inferInstanceAs (Decidable (_ ∧ _ ∧ _ ∧ _ ∧ _ ∧ _ ∧ _))

end CodeInfo

/-- An attribute of a method. Code may be opened up; an attribute may also be left as it is, whatever its name. -/
inductive MethodAttribute where
  | plain (a : AttributeInfo)
  | code (name : Nat) (c : CodeInfo)
deriving DecidableEq, Repr, Inhabited

namespace MethodAttribute

def info : MethodAttribute → AttributeInfo
  | plain a => a
  | code name c => { name, body := c.bytes }

def bytes (a : MethodAttribute) : List UInt8 := a.info.bytes

instance {ε α : Type} [DecidableEq α] (a : α) : DecidablePred fun x : Except ε α => x = .ok a
  | .ok b => decidable_of_iff (b = a) ⟨congrArg _, Except.ok.inj⟩
  | .error _ => .isFalse nofun

def Labelled (pool : ConstantPool) : MethodAttribute → Prop
  | plain _ => True
  | code name c => pool.utf8 name = .ok "Code" ∧ c.WellFormed

instance (pool : ConstantPool) : DecidablePred (Labelled pool)
  | plain _ => .isTrue trivial
  | code name c => inferInstanceAs (Decidable (pool.utf8 name = .ok "Code" ∧ c.WellFormed))

def WellFormed (pool : ConstantPool) (a : MethodAttribute) : Prop := a.info.WellFormed ∧ a.Labelled pool

instance (pool : ConstantPool) : DecidablePred (WellFormed pool) := fun _ => inferInstanceAs (Decidable (_ ∧ _))

end MethodAttribute

structure MemberInfo (α : Type) where
  access : Nat
  name : Nat
  desc : Nat
  attributes : List α
deriving DecidableEq, Repr, Inhabited

namespace MemberInfo
variable {α : Type}

def bytes (encode : α → List UInt8) (m : MemberInfo α) : List UInt8 :=
  be2 m.access ++ (be2 m.name ++ (be2 m.desc ++ listed encode m.attributes))

def WellFormed (P : α → Prop) (m : MemberInfo α) : Prop :=
  m.access < 0x10000 ∧ m.name < 0x10000 ∧ m.desc < 0x10000 ∧ m.attributes.length < 0x10000 ∧ ∀ a ∈ m.attributes, P a

instance (P : α → Prop) [DecidablePred P] : DecidablePred (WellFormed P) :=
  fun _ => inferInstanceAs (Decidable (_ ∧ _ ∧ _ ∧ _ ∧ _))

end MemberInfo

/-! ## Classes -/

structure ClassImage where
  minor : Nat
  major : Nat
  constants : List ConstantInfo
  access : Nat
  this : Nat
  super : Nat
  interfaces : List Nat
  fields : List (MemberInfo AttributeInfo)
  methods : List (MemberInfo MethodAttribute)
  attributes : List AttributeInfo
deriving DecidableEq, Repr, Inhabited

namespace ClassImage

def pool (f : ClassImage) : ConstantPool := poolOf (numbered f.constants)

def bytes (f : ClassImage) : List UInt8 :=
  be4 magic ++ (be2 f.minor ++ (be2 f.major ++
    ((be2 ((numbered f.constants).length + 1) ++ f.constants.flatMap (·.bytes)) ++
    (be2 f.access ++ (be2 f.this ++ (be2 f.super ++ (listed be2 f.interfaces ++
    (listed (MemberInfo.bytes AttributeInfo.bytes) f.fields ++
    (listed (MemberInfo.bytes MethodAttribute.bytes) f.methods ++ listed AttributeInfo.bytes f.attributes)))))))))

structure WellFormed (f : ClassImage) : Prop where
  version : f.minor < 0x10000 ∧ f.major < 0x10000
  numbers : (numbered f.constants).length < 0xffff
  constants : ∀ c ∈ f.constants, c.WellFormed
  head : f.access < 0x10000 ∧ f.this < 0x10000 ∧ f.super < 0x10000
  interfaces : f.interfaces.length < 0x10000 ∧ ∀ i ∈ f.interfaces, i < 0x10000
  fields : f.fields.length < 0x10000 ∧ ∀ m ∈ f.fields, m.WellFormed AttributeInfo.WellFormed
  methods : f.methods.length < 0x10000 ∧ ∀ m ∈ f.methods, m.WellFormed (MethodAttribute.WellFormed f.pool)
  attributes : f.attributes.length < 0x10000 ∧ ∀ a ∈ f.attributes, a.WellFormed

theorem takes_pool {f : ClassImage} (h : f.WellFormed) (pos : Nat) :
    Takes ConstantPool.read pos (be2 ((numbered f.constants).length + 1) ++ f.constants.flatMap (·.bytes)) f.pool := by
  have hnumbers := h.numbers
  refine (takes_u2 (by omega) pos).bind ?_
  rw [if_neg (by omega), Nat.add_sub_cancel]
  exact (takes_constants h.constants 1 _).bind_pure

end ClassImage

end JvmLint.ClassFile
