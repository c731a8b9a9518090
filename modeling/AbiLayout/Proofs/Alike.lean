import AbiLayout.Layout.Record
import AbiLayout.Proofs.Resolution

/-!
# What programs read of a schema

The layout of a record depends on the schema by the answers of the records that it asks for, by the
size and the alignment of pointers, and by what other records are called in errors. So under one
profile the program of a record is the same over all schemas that are alike in this, however much
the records that it asks for differ. Resolution alone does not even read the profile.

## Main definitions

* `TrapAlike`: computations that trap alike and have related results.
* `LayoutM.Parallel`: programs that ask and report alike and have related results.
* `Schema.Alike`: schemas with the same pointers, whose records have the same kinds and labels.

## Main results

* `LayoutContext.resolveField_congr`, `LayoutContext.resolveBases_congr`: over schemas that are
  alike, fields and bases are resolved by the same program.
* `LayoutContext.layoutByKind_congr`: and so are records laid out, under the same profile.
-/

namespace AbiLayout

variable {α α' β β' : Type}

/-! ### Computations side by side -/

/-- The computations trap alike, or have results that are related by `R`. -/
inductive TrapAlike (R : α → α' → Prop) : Except Trap α → Except Trap α' → Prop
  | ok {a : α} {a' : α'} (h : R a a') : TrapAlike R (.ok a) (.ok a')
  | error (t : Trap) : TrapAlike R (.error t) (.error t)

namespace TrapAlike

variable {R : α → α' → Prop} {S : β → β' → Prop} {x : Except Trap α} {x' : Except Trap α'}

theorem refl {R : α → α → Prop} (hR : ∀ a, R a a) : (x : Except Trap α) → TrapAlike R x x
  | .ok a => .ok (hR a)
  | .error t => .error t

theorem bind {f : α → Except Trap β} {f' : α' → Except Trap β'} (hx : TrapAlike R x x')
    (hf : ∀ a a', R a a' → TrapAlike S (f a) (f' a')) : TrapAlike S (x >>= f) (x' >>= f') := by
  cases hx with
  | ok h => exact hf _ _ h
  | error t => exact .error t

/-- Behind one and the same computation only its result counts. -/
theorem bind_same (x : Except Trap α) {f : α → Except Trap β} {f' : α → Except Trap β'}
    (hf : ∀ a, x = .ok a → TrapAlike S (f a) (f' a)) : TrapAlike S (x >>= f) (x >>= f') := by
  cases x with
  | ok a => exact hf a rfl
  | error t => exact .error t

/-- What follows is the same, if it does not tell related results apart. -/
theorem bind_eq {f : α → Except Trap β} {f' : α' → Except Trap β} (hx : TrapAlike R x x')
    (hf : ∀ a a', R a a' → f a = f' a') : x >>= f = x' >>= f' := by
  cases hx with
  | ok h => exact hf _ _ h
  | error t => rfl

/-- What is read off the results is the same, if it does not tell related results apart. -/
theorem map_eq {f : α → β} {f' : α' → β} (hx : TrapAlike R x x')
    (hf : ∀ a a', R a a' → f a = f' a') : x.map f = x'.map f' := by
  cases hx with
  | ok h => exact congrArg Except.ok (hf _ _ h)
  | error t => rfl

/-- Where one of the computations has a result, so has the other. -/
theorem exists_eq_ok (h : TrapAlike R x x') {a : α} (hx : x = .ok a) :
    ∃ a', x' = .ok a' ∧ R a a' := by
  subst hx
  cases h with
  | ok h => exact ⟨_, rfl, h⟩

theorem liftT_bind_eq {f : α → LayoutT β} {f' : α' → LayoutT β} (hx : TrapAlike R x x')
    (hf : ∀ a a', R a a' → f a = f' a') :
    (liftM x : LayoutT α) >>= f = (liftM x' : LayoutT α') >>= f' := by
  cases hx with
  | ok h => exact hf _ _ h
  | error t => rfl

end TrapAlike

/-! ### Programs side by side -/

namespace LayoutM

/-- The programs ask and report alike, whatever they are answered, and meet the same trap or end in
results that are related by `R`. -/
inductive Parallel (R : α → α' → Prop) : LayoutM α → LayoutM α' → Prop
  | done {a : α} {a' : α'} (h : R a a') : Parallel R (done a) (done a')
  | trap (t : Trap) : Parallel R (trap t) (trap t)
  | ask (r : RecordId) {next : Answer → LayoutM α} {next' : Answer → LayoutM α'}
      (h : ∀ a, Parallel R (next a) (next' a)) : Parallel R (ask r next) (ask r next')
  | report (d : Diagnostic) {next : LayoutM α} {next' : LayoutM α'} (h : Parallel R next next') :
      Parallel R (report d next) (report d next')

variable {R : α → α' → Prop} {S : β → β' → Prop}

theorem Parallel.refl {R : α → α → Prop} (hR : ∀ a, R a a) : (p : LayoutM α) → Parallel R p p
  | .done a => .done (hR a)
  | .trap t => .trap t
  | .ask r next => .ask r fun a => Parallel.refl hR (next a)
  | .report d next => .report d (Parallel.refl hR next)

/-- Programs side by side with equal results are equal. -/
theorem Parallel.eq {p p' : LayoutM α} (h : Parallel Eq p p') : p = p' := by
  induction h with
  | done h => rw [h]
  | trap t => rfl
  | ask r _ ih => exact congrArg (LayoutM.ask r) (funext ih)
  | report d _ ih => exact congrArg (LayoutM.report d) ih

theorem Parallel.bind {p : LayoutM α} {p' : LayoutM α'} {f : α → LayoutM β} {f' : α' → LayoutM β'}
    (hp : Parallel R p p') (hf : ∀ a a', R a a' → Parallel S (f a) (f' a')) :
    Parallel S (p >>= f) (p' >>= f') := by
  induction hp with
  | done h => exact hf _ _ h
  | trap t => exact .trap t
  | ask r _ ih => exact .ask r ih
  | report d _ ih => exact .report d ih

/-- Programs that may end in a layout error follow each other as other programs do. -/
theorem Parallel.bindT {p p' : LayoutT α} {S : Except LayoutError β → Except LayoutError β' → Prop}
    {f : α → LayoutT β} {f' : α → LayoutT β'} (hp : Parallel Eq p.run p'.run)
    (herror : ∀ e, S (.error e) (.error e)) (hf : ∀ a, Parallel S (f a).run (f' a).run) :
    Parallel S (p >>= f).run (p' >>= f').run := by
  refine Parallel.bind hp ?_
  rintro out _ rfl
  cases out with
  | error e => exact .done (herror e)
  | ok a => exact hf a

/-- Behind one and the same computation only its result counts. -/
theorem Parallel.bind_same (x : Except Trap α) {f : α → LayoutM β} {f' : α → LayoutM β'}
    (hf : ∀ a, x = .ok a → Parallel S (f a) (f' a)) :
    Parallel S ((liftM x : LayoutM α) >>= f) ((liftM x : LayoutM α) >>= f') := by
  cases x with
  | ok a => exact hf a rfl
  | error t => exact .trap t

end LayoutM

theorem TrapAlike.parallel {R : α → α' → Prop} {x : Except Trap α} {x' : Except Trap α'}
    (h : TrapAlike R x x') : LayoutM.Parallel R (liftM x) (liftM x') := by
  cases h with
  | ok h => exact .done h
  | error t => exact .trap t

/-! ### Schemas that are alike -/

namespace Schema

/-- Pointers are alike, and records have the same kinds and labels. -/
structure Alike (s s' : Schema) : Prop where
  pointerSize_eq : s.pointerSize = s'.pointerSize
  pointerAlignment_eq : s.pointerAlignment = s'.pointerAlignment
  record : ∀ r, TrapAlike (fun record record' : Record =>
    record.kind = record'.kind ∧ record.label = record'.label) (s.record r) (s'.record r)

variable {s s' : Schema}

theorem Alike.refl (s : Schema) : s.Alike s := ⟨rfl, rfl, fun _ => .refl (fun _ => ⟨rfl, rfl⟩) _⟩

/-- What is known of the size of a type is the same. -/
theorem Alike.staticSize_eq (h : s.Alike s') (ty : Ty) : s.staticSize ty = s'.staticSize ty := by
  induction ty with
  | primitive | bitfield | record => rfl
  | voidPointer | pointerTo =>
    rw [staticSize, staticSize, h.pointerSize_eq, h.pointerAlignment_eq]
  | array element count ih =>
    cases count with
    | none => rfl
    | some count => rw [staticSize, staticSize, ih]

/-- A type has the same name. -/
theorem Alike.typeName_eq (h : s.Alike s') (ty : Ty) : s.typeName ty = s'.typeName ty := by
  induction ty with
  | primitive | bitfield | voidPointer => rfl
  | pointerTo pointee ih => rw [typeName, typeName, ih]
  | array element count ih => cases count <;> rw [typeName, typeName, ih]
  | record r =>
    rw [typeName, typeName]
    refine (h.record r).bind_eq fun record record' ⟨hkind, hlabel⟩ => ?_
    rw [hkind, hlabel]

end Schema

namespace LayoutContext

variable {c c' : LayoutContext} (h : c.schema.Alike c'.schema) (record : Record)

include h

/-! ### Resolution -/

theorem typeTooLarge_congr (ty : Ty) :
    (c.typeTooLarge ty : LayoutT α) = c'.typeTooLarge ty := by
  rw [typeTooLarge, typeTooLarge, h.typeName_eq]

theorem blameDependency_congr (ty : Ty) (cause : LayoutError) :
    (c.blameDependency record ty cause : LayoutT α) = c'.blameDependency record ty cause := by
  rw [blameDependency, blameDependency, h.typeName_eq]

theorem typeLayout_congr (ty : Ty) : c.typeLayout ty = c'.typeLayout ty := by
  induction ty with
  | primitive | bitfield | record => rfl
  | voidPointer | pointerTo =>
    rw [typeLayout_of_known rfl, typeLayout_of_known rfl, h.pointerSize_eq, h.pointerAlignment_eq]
  | array element count ih =>
    have hstatic' := h.staticSize_eq (.array element count)
    cases hstatic : c.schema.staticSize (.array element count) with
    | known size alignment =>
      rw [typeLayout_of_known hstatic, typeLayout_of_known (hstatic'.symm.trans hstatic)]
    | tooLarge =>
      rw [typeLayout_of_tooLarge hstatic, typeLayout_of_tooLarge (hstatic'.symm.trans hstatic),
        typeTooLarge_congr h]
    | recordDependent | incomplete =>
      rw [typeLayout_array (c := c) (by simp [hstatic]),
        typeLayout_array (c := c') (by simp [← hstatic', hstatic]), ih]
      simp only [typeTooLarge_congr h]

theorem resolveMember_congr (member : String) (ty : Ty) :
    c.resolveMember record member ty = c'.resolveMember record member ty := by
  rw [resolveMember, resolveMember, typeLayout_congr h]
  simp only [blameDependency_congr h]

theorem requireSizedElements_congr (member : String) (ty : Ty) :
    c.requireSizedElements record member ty = c'.requireSizedElements record member ty := by
  induction ty with
  | primitive | bitfield | voidPointer | pointerTo | record => rfl
  | array element count ih =>
    rw [requireSizedElements, requireSizedElements, ih, resolveMember_congr h]

/-- **A field is resolved by the same program** over schemas that are alike. -/
theorem resolveField_congr (i : Nat) (field : Field) :
    c.resolveField record i field = c'.resolveField record i field := by
  unfold resolveField
  split
  · rfl
  · dsimp only
    rw [requireSizedElements_congr h, resolveMember_congr h]

/-- **Bases are resolved by the same program** over schemas that are alike. -/
theorem resolveBases_congr (bases : List Base) :
    StructDraft.resolveBases c record bases = StructDraft.resolveBases c' record bases := by
  induction bases with
  | nil => rfl
  | cons base bases ih =>
    rw [StructDraft.resolveBases, StructDraft.resolveBases]
    refine (h.record base.record).liftT_bind_eq fun baseRecord baseRecord' halike => ?_
    obtain ⟨-, hlabel⟩ := halike
    dsimp only
    rw [hlabel, ih, funext (blameDependency_congr h record (.record base.record))]

theorem unionFieldsFrom_congr (i : Nat) (fields : List Field) (d : UnionDraft) :
    UnionDraft.addFieldsFrom c record i fields d =
      UnionDraft.addFieldsFrom c' record i fields d := by
  induction fields generalizing i d with
  | nil => rfl
  | cons field fields ih => simp only [UnionDraft.addFieldsFrom, resolveField_congr h, ih]

/-! ### Records -/

theorem structFieldsFrom_congr (i : Nat) (fields : List Field) (d : StructDraft) :
    StructDraft.addFieldsFrom c record i fields d =
      StructDraft.addFieldsFrom c' record i fields d := by
  induction fields generalizing i d with
  | nil => rfl
  | cons field fields ih =>
    simp only [StructDraft.addFieldsFrom, StructDraft.addField, resolveField_congr h, ih]

omit h in
theorem structFinish_congr (hprofile : c.profile = c'.profile) (d : StructDraft) :
    d.finish c record = d.finish c' record := by
  rw [StructDraft.finish, StructDraft.finish, hprofile]

theorem addMembers_congr (hprofile : c.profile = c'.profile) (d : StructDraft) :
    StructDraft.addMembers c record d = StructDraft.addMembers c' record d := by
  have hfields (d : StructDraft) :
      StructDraft.addFields c record d = StructDraft.addFields c' record d :=
    structFieldsFrom_congr h record 0 record.fields d
  rw [StructDraft.addMembers, StructDraft.addMembers, StructDraft.addBases, StructDraft.addBases,
    resolveBases_congr h, hprofile]
  simp only [hfields]

/-- **A record is laid out by the same program** over schemas that are alike, under the same
profile. -/
theorem layoutByKind_congr (hprofile : c.profile = c'.profile) :
    c.layoutByKind record = c'.layoutByKind record := by
  rw [layoutByKind, layoutByKind]
  cases record.kind with
  | struct =>
    dsimp only
    rw [structLayout, structLayout, addMembers_congr h record hprofile, hprofile]
    simp only [structFinish_congr record hprofile]
  | union =>
    dsimp only
    rw [unionLayout, unionLayout, unionFieldsFrom_congr h]
    simp only [UnionDraft.finish, hprofile]

end LayoutContext

end AbiLayout
