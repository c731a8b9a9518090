import AbiLayout.Layout.Lookup
import AbiLayout.Proofs.Answers
import AbiLayout.Proofs.Cycles
import AbiLayout.Proofs.Steady

/-!
# What layout programs ask

Whatever it is answered, the program of a record asks only for records that the record contains, and
what it reports are warnings about padding and its own failure. It meets traps of arithmetic,
besides those of naming its members. So its value depends on the answers of contained records alone.
Over a closed schema containment is well founded, and the answers are determined by the programs:
the bound on the depth is never felt.

## Main definitions

* `LayoutM.Within`, `LayoutT.Within`: what a program may ask and report, and the traps that it may
  meet; `LayoutM.Confined`, `LayoutT.Confined`: the same without the traps.
* `Record.Warns`, `Record.Reports`: the diagnostics that a record may give.
* `LayoutContext.answer`: the answer of a record, computed without a memory.

## Main results

* `LayoutContext.within_layoutByKind`, `LayoutContext.within_recordLayout`: a record asks for what
  it contains, and meets traps of arithmetic.
* `LayoutContext.answer_eq`: the answer of a record is the value of its program on the answers of
  others.
* `LayoutContext.hasAnswer_iff`: answers found at any depth are those found at the depth of the
  schema.
-/

namespace AbiLayout

variable {α β : Type} {P P' : RecordId → Prop} {Q Q' : Diagnostic → Prop}

/-- A diagnostic that is no error. -/
def Diagnostic.IsWarning (d : Diagnostic) : Prop := d.severity = .warning

/-- A warning that the layout of a record may give. -/
inductive Record.Warns (record : Record) : Diagnostic → Prop
  /-- There is padding in front of a field. -/
  | member (i : Nat) (field : Field) (placement : Placement) :
      record.Warns (StructDraft.paddedMember record i field placement)
  /-- There is padding at the end. -/
  | tail (padding : BitCount) : record.Warns (StructDraft.paddedRecord record padding)

theorem Record.Warns.isWarning {record : Record} {d : Diagnostic} (h : record.Warns d) :
    d.IsWarning := by
  cases h with
  | member i field placement => cases placement <;> rfl
  | tail => rfl

/-- A diagnostic that a record may give: a warning of its layout, or its failure. -/
inductive Record.Reports (record : Record) : Diagnostic → Prop
  | warning {d : Diagnostic} (h : record.Warns d) : record.Reports d
  | failure (e : LayoutError) : record.Reports (LayoutContext.failure record e)

/-- The schema has the record `r`, and that may give the diagnostic. -/
def LayoutContext.MayReport (c : LayoutContext) (r : RecordId) (d : Diagnostic) : Prop :=
  ∃ record, c.schema.records.get? r = some record ∧ record.Reports d

theorem Record.mem_contained_of_base (record : Record) {base : Base} (h : base ∈ record.bases) :
    base.record ∈ record.contained :=
  mem_contained_iff.mpr (.inl ⟨base, h, rfl⟩)

theorem Record.mem_contained_of_field (record : Record) {field : Field} {r : RecordId}
    (h : field ∈ record.fields) (hr : field.ty.containedRecord? = some r) : r ∈ record.contained :=
  mem_contained_iff.mpr (.inr ⟨field, h, Ty.containedRecord?_eq_some_iff.mp hr⟩)

/-! ### What programs may do -/

variable {T : Trap → Prop}

namespace LayoutM

/-- Whatever it is answered, the program asks only for records in `P` and reports only diagnostics
in `Q`. -/
def Confined (P : RecordId → Prop) (Q : Diagnostic → Prop) : LayoutM α → Prop
  | done _ | trap _ => True
  | ask r next => P r ∧ ∀ a, (next a).Confined P Q
  | report d next => Q d ∧ next.Confined P Q

/-- Whatever it is answered, the program asks only for records in `P`, reports only diagnostics in
`Q`, and meets only traps in `T`. -/
def Within (P : RecordId → Prop) (Q : Diagnostic → Prop) (T : Trap → Prop) : LayoutM α → Prop
  | done _ => True
  | trap t => T t
  | ask r next => P r ∧ ∀ a, (next a).Within P Q T
  | report d next => Q d ∧ next.Within P Q T

/-- What a program asks and reports does not depend on its traps. -/
theorem Within.confined {p : LayoutM α} (h : p.Within P Q T) : p.Confined P Q := by
  induction p with
  | done | trap => trivial
  | ask r next ih => exact ⟨h.1, fun a => ih a (h.2 a)⟩
  | report d next ih => exact ⟨h.1, ih h.2⟩

theorem within_pure (a : α) : (pure a : LayoutM α).Within P Q T := trivial

theorem within_request {r : RecordId} (h : P r) : (request r).Within P Q T := ⟨h, fun _ => trivial⟩

theorem within_notify {d : Diagnostic} (h : Q d) : (notify d).Within P Q T := ⟨h, trivial⟩

theorem within_liftM {x : Except Trap α} (h : ∀ t, x = .error t → T t) :
    (liftM x : LayoutM α).Within P Q T := by
  cases x with
  | error t => exact h t rfl
  | ok a => exact within_pure a

theorem Within.bind {p : LayoutM α} {f : α → LayoutM β} (hp : p.Within P Q T)
    (hf : ∀ a, (f a).Within P Q T) : (p >>= f).Within P Q T := by
  induction p with
  | done a => exact hf a
  | trap t => exact hp
  | ask r next ih => exact ⟨hp.1, fun a => ih a (hp.2 a)⟩
  | report d next ih => exact ⟨hp.1, ih hp.2⟩

theorem Within.map (f : α → β) {p : LayoutM α} (hp : p.Within P Q T) :
    (f <$> p).Within P Q T := by
  rw [map_eq_pure_bind]
  exact hp.bind fun a => within_pure (f a)

/-- Behind a computation that may trap, only its result counts. -/
theorem within_liftM_bind {x : Except Trap α} {f : α → LayoutM β} (hx : ∀ t, x = .error t → T t)
    (hf : ∀ a, x = .ok a → (f a).Within P Q T) : ((liftM x : LayoutM α) >>= f).Within P Q T := by
  cases x with
  | error t => exact hx t rfl
  | ok a => exact hf a rfl

theorem Within.mono {p : LayoutM α} (h : p.Within P Q T) (hP : ∀ r, P r → P' r)
    (hQ : ∀ d, Q d → Q' d) : p.Within P' Q' T := by
  induction p with
  | done => trivial
  | trap t => exact h
  | ask r next ih => exact ⟨hP r h.1, fun a => ih a (h.2 a)⟩
  | report d next ih => exact ⟨hQ d h.1, ih h.2⟩

/-- Every program is confined to everything. -/
theorem confined_of_forall (hP : ∀ r, P r) (hQ : ∀ d, Q d) : (p : LayoutM α) → p.Confined P Q
  | done _ | trap _ => trivial
  | ask r next => ⟨hP r, fun a => confined_of_forall hP hQ (next a)⟩
  | report d next => ⟨hQ d, confined_of_forall hP hQ next⟩

/-- The value of a program depends only on the answers that it may ask for. -/
theorem Confined.value_congr {answer answer' : RecordId → Except Trap Answer} {p : LayoutM α}
    (h : p.Confined P Q) (heq : ∀ r, P r → answer r = answer' r) :
    p.value answer = p.value answer' := by
  induction p with
  | done | trap => rfl
  | ask r next ih =>
    rw [value, value, heq r h.1]
    cases answer' r with
    | error t => rfl
    | ok a => exact ih a (h.2 a)
  | report d next ih => exact ih h.2

end LayoutM

namespace LayoutT

/-- The program asks only for records in `P` and reports only diagnostics in `Q`. -/
def Confined (P : RecordId → Prop) (Q : Diagnostic → Prop) (p : LayoutT α) : Prop :=
  LayoutM.Confined P Q p.run

/-- The program asks only for records in `P`, reports only diagnostics in `Q`, and meets only traps
in `T`. -/
def Within (P : RecordId → Prop) (Q : Diagnostic → Prop) (T : Trap → Prop) (p : LayoutT α) : Prop :=
  LayoutM.Within P Q T p.run

theorem Within.confined {p : LayoutT α} (h : Within P Q T p) : Confined P Q p :=
  LayoutM.Within.confined h

theorem within_pure (a : α) : Within P Q T (pure a) := trivial

theorem within_throw (e : LayoutError) : Within P Q T (throw e : LayoutT α) := trivial

theorem within_trap {t : Trap} (h : T t) : Within P Q T (trap t : LayoutT α) := h

theorem within_layoutOf {r : RecordId} (h : P r) : Within P Q T (layoutOf r) :=
  LayoutM.within_request h

theorem within_liftM {x : Except Trap α} (h : ∀ t, x = .error t → T t) :
    Within P Q T (liftM x : LayoutT α) := by
  cases x with
  | error t => exact h t rfl
  | ok a => exact within_pure a

theorem Within.bind {p : LayoutT α} {f : α → LayoutT β} (hp : Within P Q T p)
    (hf : ∀ a, Within P Q T (f a)) : Within P Q T (p >>= f) := by
  refine LayoutM.Within.bind hp fun out => ?_
  cases out with
  | error e => trivial
  | ok a => exact hf a

/-- Behind a computation that may trap, only its result counts. -/
theorem within_liftM_bind {x : Except Trap α} {f : α → LayoutT β} (hx : ∀ t, x = .error t → T t)
    (hf : ∀ a, x = .ok a → Within P Q T (f a)) : Within P Q T ((liftM x : LayoutT α) >>= f) := by
  cases x with
  | error t => exact hx t rfl
  | ok a => exact hf a rfl

theorem Within.tryCatch {p : LayoutT α} {handle : LayoutError → LayoutT α}
    (hp : Within P Q T p) (hhandle : ∀ e, Within P Q T (handle e)) :
    Within P Q T (tryCatch p handle) := by
  refine LayoutM.Within.bind hp fun out => ?_
  cases out with
  | error e => exact hhandle e
  | ok a => trivial

theorem Within.map {p : LayoutT α} (f : α → β) (hp : Within P Q T p) :
    Within P Q T (f <$> p) := by
  rw [map_eq_pure_bind]
  exact hp.bind fun a => within_pure (f a)

theorem Within.lift {p : LayoutM α} (hp : p.Within P Q T) :
    Within P Q T (ExceptT.lift p) := by
  rw [Within, ExceptT.run_lift, map_eq_pure_bind]
  exact LayoutM.Within.bind hp fun a => LayoutM.within_pure _

end LayoutT

namespace LayoutContext

open LayoutT

variable {c : LayoutContext} {record : Record} {ty : Ty}

/-! ### Names -/

/-- Naming the type meets only traps in `T`. -/
def Names (c : LayoutContext) (T : Trap → Prop) (ty : Ty) : Prop :=
  ∀ t, c.schema.typeName ty = .error t → T t

/-- Naming the bases of a record and the types of its fields meets only traps in `T`. -/
structure NamesMembers (c : LayoutContext) (T : Trap → Prop) (record : Record) : Prop where
  base : ∀ base ∈ record.bases, c.Names T (.record base.record)
  field : ∀ field ∈ record.fields, c.Names T field.ty

theorem names_of_forall (hT : ∀ t, T t) (ty : Ty) : c.Names T ty := fun t _ => hT t

theorem namesMembers_of_forall (hT : ∀ t, T t) (record : Record) : c.NamesMembers T record :=
  ⟨fun _ _ => names_of_forall hT _, fun _ _ => names_of_forall hT _⟩

theorem Names.element {element : Ty} {count : Option Nat} (h : c.Names T (.array element count)) :
    c.Names T element := by
  intro t ht
  refine h t ?_
  cases count <;> rw [Schema.typeName, ht] <;> rfl

theorem Names.get {r : RecordId} (h : c.Names T (.record r)) :
    ∀ t, c.schema.record r = .error t → T t := by
  intro t ht
  exact h t (by rw [Schema.typeName, ht]; rfl)

/-! ### Types and fields -/

theorem within_typeTooLarge (h : c.Names T ty) : Within P Q T (c.typeTooLarge ty : LayoutT α) :=
  (within_liftM h).bind fun _ => within_throw _

theorem within_blameDependency (h : c.Names T ty) (e : LayoutError) :
    Within P Q T (c.blameDependency record ty e : LayoutT α) :=
  (within_liftM h).bind fun _ => within_throw _

/-- The layout of a type asks for the record that the type holds. -/
theorem within_typeLayout (hnames : c.Names T ty) (h : ∀ r, ty.containedRecord? = some r → P r) :
    Within P Q T (c.typeLayout ty) := by
  induction ty with
  | primitive | bitfield | voidPointer | pointerTo => exact within_pure _
  | record r => exact (within_layoutOf (h r rfl)).map _
  | array element count ih =>
    cases hstatic : c.schema.staticSize (.array element count) with
    | known size alignment =>
      rw [typeLayout_of_known hstatic]
      exact within_pure _
    | tooLarge =>
      rw [typeLayout_of_tooLarge hstatic]
      exact within_typeTooLarge hnames
    | recordDependent | incomplete =>
      rw [typeLayout_array (by simp [hstatic])]
      refine (ih hnames.element h).bind fun layout => ?_
      cases arrayLayout? layout count with
      | none => exact within_typeTooLarge hnames
      | some whole => exact within_pure whole

theorem within_resolveMember (member : String) (hnames : c.Names T ty)
    (h : ∀ r, ty.containedRecord? = some r → P r) :
    Within P Q T (c.resolveMember record member ty) := by
  refine (within_typeLayout hnames h).tryCatch fun e => ?_
  split
  · exact within_throw _
  · exact within_blameDependency hnames _

theorem within_requireSizedElements (member : String) (hnames : c.Names T ty)
    (h : ∀ r, ty.containedRecord? = some r → P r) :
    Within P Q T (c.requireSizedElements record member ty) := by
  induction ty with
  | primitive | bitfield | voidPointer | pointerTo | record => exact within_pure _
  | array element count ih =>
    have h : ∀ r, element.containedRecord? = some r → P r := h
    rw [requireSizedElements]
    refine (within_resolveMember member hnames.element h).bind fun layout => ?_
    by_cases htail : layout.isTrailingOnly = true
    · rw [if_pos htail]
      exact within_throw _
    · rw [if_neg htail]
      exact ih hnames.element h

section Steady

variable (hT : ∀ t, ¬t.IsStray → T t)

include hT

/-- A computation that does not lose its way may be part of a program that allows all other
traps. -/
theorem within_steady {x : Except Trap α} (h : Steady x) : (liftM x : LayoutM α).Within P Q T :=
  LayoutM.within_liftM fun t ht => hT t (h t ht)

theorem within_steadyT {x : Except Trap α} (h : Steady x) : Within P Q T (liftM x : LayoutT α) :=
  within_liftM fun t ht => hT t (h t ht)

theorem within_resolveBitfield (i : Nat) (field : Field) (b : Bitfield) :
    Within P Q T (resolveBitfield record i field b) := by
  unfold resolveBitfield
  dsimp only
  split
  · exact within_throw _
  split
  · exact within_throw _
  split
  · split
    · exact within_throw _
    · exact within_pure _
  · refine (within_steadyT hT (Quantity.steady_toBits _)).bind fun max => ?_
    split
    · exact within_throw _
    · exact within_pure _

/-- A field asks for the record that its type holds. -/
theorem within_resolveField (i : Nat) {field : Field} (hnames : c.Names T field.ty)
    (h : ∀ r, field.ty.containedRecord? = some r → P r) :
    Within P Q T (c.resolveField record i field) := by
  unfold resolveField
  split
  · exact within_resolveBitfield hT i field _
  · refine (within_requireSizedElements _ hnames h).bind fun _ => ?_
    refine (within_resolveMember _ hnames h).bind fun layout => ?_
    split
    · exact within_throw _
    · exact within_pure _

/-! ### Structs -/

omit hT in
/-- The resolution of bases asks for the bases. -/
theorem within_resolveBases {bases : List Base}
    (hnames : ∀ base ∈ bases, c.Names T (.record base.record)) (h : ∀ base ∈ bases, P base.record) :
    Within P Q T (StructDraft.resolveBases c record bases) := by
  induction bases with
  | nil => exact within_pure _
  | cons base bases ih =>
    obtain ⟨hhead, htail⟩ := List.forall_mem_cons.mp h
    obtain ⟨hname, hnames⟩ := List.forall_mem_cons.mp hnames
    refine (within_liftM hname.get).bind fun baseRecord => ?_
    dsimp only
    split
    · exact within_throw _
    refine ((within_layoutOf hhead).tryCatch (within_blameDependency hname)).bind fun layout => ?_
    split
    · exact within_throw _
    · exact (ih hnames htail).bind fun later => within_pure _

theorem within_addBases (d : StructDraft) (hnames : c.NamesMembers T record)
    (h : ∀ base ∈ record.bases, P base.record) :
    (StructDraft.addBases c record d).Within P Q T := by
  refine LayoutM.Within.bind (within_resolveBases hnames.base h) fun out => ?_
  cases out with
  | error e => trivial
  | ok bases =>
    dsimp only
    split
    · trivial
    · exact within_steady hT (d.steady_placeBases record 0 bases)

/-- A field asks for the record that its type holds, and reports at most the padding in front of
it. -/
theorem within_addField (i : Nat) {field : Field} (d : StructDraft)
    (hreport : ∀ placement, Q (StructDraft.paddedMember record i field placement))
    (hnames : c.Names T field.ty) (h : ∀ r, field.ty.containedRecord? = some r → P r) :
    (StructDraft.addField c record i field d).Within P Q T := by
  refine LayoutM.Within.bind (within_resolveField hT i hnames h) fun out => ?_
  cases out with
  | error e => trivial
  | ok placement =>
    refine (within_steady hT (d.steady_place i field.isNamed placement)).bind fun step => ?_
    split
    · trivial
    · trivial
    · split
      · exact (LayoutM.within_notify (hreport placement)).bind fun _ => trivial
      · trivial

theorem within_addFieldsFrom {fields : List Field} (i : Nat) (d : StructDraft)
    (hreport : ∀ i field placement, Q (StructDraft.paddedMember record i field placement))
    (hnames : ∀ field ∈ fields, c.Names T field.ty)
    (h : ∀ field ∈ fields, ∀ r, field.ty.containedRecord? = some r → P r) :
    (StructDraft.addFieldsFrom c record i fields d).Within P Q T := by
  induction fields generalizing i d with
  | nil => trivial
  | cons field fields ih =>
    obtain ⟨hhead, htail⟩ := List.forall_mem_cons.mp h
    obtain ⟨hname, hnames⟩ := List.forall_mem_cons.mp hnames
    refine (within_addField hT i d (hreport i field) hname hhead).bind fun out => ?_
    split
    · trivial
    · exact ih _ _ hnames htail

theorem within_finish (d : StructDraft) : Within P record.Warns T (d.finish c record) := by
  refine (within_steadyT hT d.cursor.steady_endRun).bind fun closed => ?_
  split
  · exact within_throw _
  refine (within_steadyT hT (c.profile.steady_recordSize? _ _)).bind fun size => ?_
  split
  · exact within_throw _
  refine (within_steadyT hT (Quantity.steady_toBits _)).bind fun sizeBits => ?_
  dsimp only
  split
  · refine (within_steadyT hT (Quantity.steady_sub _ _)).bind fun padding => ?_
    refine (Within.lift (LayoutM.within_notify (.tail padding))).bind fun _ => ?_
    exact (within_steadyT hT (steady_gapsFrom _ _ _)).bind fun _ => within_pure _
  · exact (within_steadyT hT (steady_gapsFrom _ _ _)).bind fun _ => within_pure _

/-- The members of a record ask for what the record contains, and report at most the padding in
front of fields. -/
theorem within_addMembers (d : StructDraft)
    (hreport : ∀ i field placement, Q (StructDraft.paddedMember record i field placement))
    (hnames : c.NamesMembers T record) (h : ∀ r ∈ record.contained, P r) :
    (StructDraft.addMembers c record d).Within P Q T := by
  refine (within_addBases hT _ hnames fun base hbase =>
    h _ (record.mem_contained_of_base hbase)).bind fun out => ?_
  split
  · trivial
  · exact within_addFieldsFrom hT 0 _ hreport hnames.field fun field hfield r hr =>
      h r (record.mem_contained_of_field hfield hr)

theorem within_structLayout (hnames : c.NamesMembers T record) (h : ∀ r ∈ record.contained, P r) :
    Within P record.Warns T (c.structLayout record) := by
  refine LayoutM.Within.bind (within_addMembers hT _ .member hnames h) fun out => ?_
  split
  · trivial
  · exact within_finish hT _

/-! ### Unions and records -/

theorem within_unionFieldsFrom {fields : List Field} (i : Nat) (d : UnionDraft)
    (hnames : ∀ field ∈ fields, c.Names T field.ty)
    (h : ∀ field ∈ fields, ∀ r, field.ty.containedRecord? = some r → P r) :
    Within P Q T (UnionDraft.addFieldsFrom c record i fields d) := by
  induction fields generalizing i d with
  | nil => trivial
  | cons field fields ih =>
    obtain ⟨hhead, htail⟩ := List.forall_mem_cons.mp h
    obtain ⟨hname, hnames⟩ := List.forall_mem_cons.mp hnames
    refine (within_resolveField hT i hname hhead).bind fun placement => ?_
    exact (within_steadyT hT (d.steady_place i _ placement)).bind fun d => ih _ _ hnames htail

theorem within_unionLayout (hnames : c.NamesMembers T record) (h : ∀ r ∈ record.contained, P r) :
    Within P Q T (c.unionLayout record) := by
  refine (within_unionFieldsFrom hT 0 _ hnames.field fun field hfield r hr =>
    h r (record.mem_contained_of_field hfield hr)).bind fun d => ?_
  refine (within_steadyT hT (c.profile.steady_recordSize? _ _)).bind fun size => ?_
  split
  · exact within_throw _
  · exact (within_steadyT hT (d.steady_padding _)).bind fun _ => within_pure _

/-- **The layout of a record asks for what the record contains**, gives at most warnings about
padding, and meets only traps of arithmetic, besides those of naming its members. -/
theorem within_layoutByKind (hnames : c.NamesMembers T record) (h : ∀ r ∈ record.contained, P r) :
    Within P record.Warns T (c.layoutByKind record) := by
  rw [layoutByKind]
  cases record.kind with
  | struct => exact within_structLayout hT hnames h
  | union => exact within_unionLayout hT hnames h

/-- The program of a record asks for what the record contains, and reports what the record may
give. -/
theorem within_recordLayout {r : RecordId} (hname : c.Names T (.record r))
    (hnames : ∀ record, c.schema.records.get? r = some record → c.NamesMembers T record) :
    (c.recordLayout r).Within (Contains c.schema.records r) (c.MayReport r) T := by
  refine LayoutM.within_liftM_bind hname.get fun record hrecord => ?_
  rw [Schema.record, Arena.get_eq_ok_iff] at hrecord
  have hcontains (r' : RecordId) (hr' : r' ∈ record.contained) :
      Contains c.schema.records r r' := by
    rw [← mem_containedIn_iff, containedIn, hrecord]
    exact hr'
  refine LayoutM.Within.bind (LayoutM.Within.mono
    (within_layoutByKind hT (hnames record hrecord) hcontains) (fun _ h => h)
    fun _ h => ⟨record, hrecord, .warning h⟩) fun out => ?_
  cases out with
  | ok l =>
    refine (within_steady hT l.steady_flaw?).bind fun flaw => ?_
    cases flaw with
    | none => exact LayoutM.within_pure _
    | some flaw => exact hT _ id
  | error e =>
    dsimp only
    split
    · exact (LayoutM.within_notify ⟨record, hrecord, .failure e⟩).bind fun _ => trivial
    · trivial

end Steady

/-- The layout of a record asks for what the record contains, and gives at most warnings. -/
theorem confined_layoutByKind (h : ∀ r ∈ record.contained, P r) :
    Confined P record.Warns (c.layoutByKind record) :=
  (within_layoutByKind (T := fun _ => True) (fun _ _ => trivial)
    (namesMembers_of_forall (fun _ => trivial) record) h).confined

/-- The program of a record asks for what the record contains, and reports what the record may
give. -/
theorem confined_recordLayout (r : RecordId) :
    (c.recordLayout r).Confined (Contains c.schema.records r) (c.MayReport r) :=
  (within_recordLayout (T := fun _ => True) (fun _ _ => trivial)
    (names_of_forall (fun _ => trivial) _)
    fun record _ => namesMembers_of_forall (fun _ => trivial) record).confined

/-! ### The answer of a record -/

/-- The answer of a record, computed without a memory: the programs of the records that it asks for
are run as often as they are asked for. -/
def answer (c : LayoutContext) (r : RecordId) : Except Trap Answer := c.answerWithin c.maxDepth r

/-- A record with an answer is in the schema. -/
theorem contains_of_answerWithin {depth : Nat} {r : RecordId} {a : Answer}
    (h : c.answerWithin depth r = .ok a) : c.schema.records.contains r = true := by
  cases depth with
  | zero => cases h
  | succ depth =>
    obtain ⟨record, hrecord, -⟩ := recordLayout_eq_ok h
    exact Arena.contains_iff_get?.mpr ⟨record, hrecord⟩

section Closed

variable (hclosed : c.schema.Closed)

include hclosed

/-- The bound on the depth is not felt by a record of the schema. -/
theorem answerWithin_eq_answer {r : RecordId} (hr : c.schema.records.contains r = true)
    {depth : Nat} (hdepth : c.schema.records.size ≤ depth) :
    c.answerWithin depth r = c.answer r := by
  have heq : ∀ depth, c.schema.records.size ≤ depth →
      c.answerWithin depth r = c.answerWithin c.schema.records.size r := by
    refine hclosed.induction_on_depth
      (motive := fun r n => ∀ depth, n ≤ depth → c.answerWithin depth r = c.answerWithin n r)
      (fun r n _ ih depth hdepth => ?_) hr (Nat.le_refl _)
    cases depth with
    | zero => cases hdepth
    | succ depth =>
      exact (confined_recordLayout r).value_congr fun r' hr' =>
        ih r' hr' depth (Nat.le_of_succ_le_succ hdepth)
  rw [answer, heq depth hdepth, heq c.maxDepth (Nat.le_succ _)]

/-- **The answer of a record is the value of its program** on the answers of others. -/
theorem answer_eq (r : RecordId) : c.answer r = (c.recordLayout r).value c.answer :=
  (confined_recordLayout r).value_congr fun _ hr' =>
    answerWithin_eq_answer hclosed (hclosed.contains hr') (Nat.le_refl _)

/-- A record has an answer exactly when that is found at the depth of the schema. -/
theorem hasAnswer_iff {r : RecordId} {a : Answer} : c.HasAnswer r a ↔ c.answer r = .ok a := by
  refine ⟨fun ⟨depth, h⟩ => ?_, fun h => ⟨c.maxDepth, h⟩⟩
  have hmax := answerWithin_mono (Nat.le_max_left depth c.maxDepth) h
  rwa [answerWithin_eq_answer hclosed (contains_of_answerWithin h)
    ((Nat.le_succ _).trans (Nat.le_max_right depth c.maxDepth))] at hmax

end Closed

end LayoutContext

end AbiLayout
