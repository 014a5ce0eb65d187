import Schemata.Proofs.Derivation.Turns
import Schemata.Proofs.Output.Bound
import Schemata.Proofs.Output.Grafts
import Schemata.Proofs.Schema.Ends

/-!
# Output types that end

Building the output type of a derived type ends if every cycle of the schema passes through an object,
whatever is remembered of output types. A cycle is left where its object comes up again: the object is
being built, or it is complete. There are as many objects as shapes, and between two of them no more
references are followed than there are names.
-/

namespace Schemata

/-! ## Stateful computations -/

namespace Stateful

variable {σ α β : Type}

/-- A computation ends from every state. -/
def Ends (m : Stateful σ α) : Prop :=
  ∀ state, Schemata.Ends (m.exec state).1

namespace Ends

theorem pure (a : α) : Ends (pure a : Stateful σ α) :=
  fun _ => .ok a

theorem bind {m : Stateful σ α} (h : m.Ends) {f : α → Stateful σ β} (next : ∀ a, (f a).Ends) :
    (m >>= f).Ends := by
  intro state
  have first := h state
  rcases hm : m.exec state with ⟨failure | a, state'⟩
  · rw [hm] at first
    rw [exec_bind_error hm]
    exact first.of_error
  · rw [exec_bind_ok hm]
    exact next a state'

theorem modify (change : σ → σ) : Ends (modify change : Stateful σ Unit) :=
  fun _ => .ok ()

theorem lift {x : Except Failure α} (h : Schemata.Ends x) : Ends (liftM x : Stateful σ α) := by
  intro state
  cases x with
  | error failure => exact h
  | ok a => exact h

end Ends

end Stateful

/-! ## Unions -/

namespace StaticType

theorem requireHashable_ends (members : List Value) : Ends (requireHashable members) := by
  unfold requireHashable
  split <;> rintro ⟨⟩

theorem equalAll_ends {ss : List StaticType} (h : ∀ s ∈ ss, ∀ t, Ends (equal s t))
    (ts : List StaticType) : Ends (equalAll ss ts) := by
  induction ss generalizing ts with
  | nil => cases ts <;> rw [equalAll] <;> simp [Ends]
  | cons s rest ih =>
    obtain ⟨first, others⟩ := List.forall_mem_cons.mp h
    cases ts with
    | nil => rw [equalAll] <;> simp [Ends]
    | cons t ts =>
      rw [equalAll]
      refine (first t).bind fun same => ?_
      cases same with
      | true => exact ih others ts
      | false => exact .ok _

theorem allIn_ends {ss : List StaticType} (h : ∀ s ∈ ss, ∀ t, Ends (equal s t))
    (ts : List StaticType) : Ends (allIn ss ts) := by
  induction ss with
  | nil =>
    rw [allIn]
    exact .ok _
  | cons s rest ih =>
    obtain ⟨first, others⟩ := List.forall_mem_cons.mp h
    rw [allIn]
    refine (Ends.anyM fun t _ => first t).bind fun found => ?_
    cases found with
    | true => exact ih others
    | false => exact .ok _

theorem equal_ends (s t : StaticType) : Ends (equal s t) := by
  induction s using args_induction generalizing t with
  | step s ih =>
    by_cases hidx : s.ctorIdx = t.ctorIdx
    · cases product : s.isProduct with
      | true =>
        rw [equal_products product hidx]
        exact equalAll_ends ih _
      | false =>
        cases s with
        | schema c args =>
          cases t <;> cases hidx
          next d args' =>
            cases args <;> cases args' <;> simp only [equal]
            · exact .ok _
            · exact .ok _
            · exact .ok _
            next ss ts =>
              split
              · exact equalAll_ends ih ts
              · exact .ok _
        | literal vs =>
          cases t <;> cases hidx
          next ws =>
            rw [equal]
            refine (requireHashable_ends vs).bind fun _ => ?_
            exact (requireHashable_ends ws).bind fun _ => .ok _
        | union members =>
          cases t <;> cases hidx
          next members' =>
            rw [equal]
            split
            · exact allIn_ends ih members'
            · exact .ok _
        | list | dict | tuple => cases product
        | _ =>
          cases t <;> cases hidx
          exact .ok _
    · rw [equal_of_ctorIdx_ne hidx]
      exact .ok _

/-- Forming a union may fail, but not for want of depth. -/
theorem unionOf_ends (types : List StaticType) : Ends (unionOf types) := by
  have distinct_ends : Ends (distinct (types.flatMap unionMembers)) := by
    refine Ends.foldlM (fun kept t _ => ?_) []
    refine (Ends.anyM fun k _ => equal_ends k t).bind fun found => ?_
    cases found <;> exact .ok _
  unfold unionOf
  refine distinct_ends.bind fun kept => ?_
  split <;> exact .ok _

end StaticType

/-! ## Lists -/

namespace Names

variable {names : Names} {limit objects references : Nat} {building : List ShapeId}

theorem outputsIn_ends {ts : List StaticType}
    (h : ∀ t ∈ ts, (names.outputIn limit objects references building t).Ends) :
    (names.outputsIn limit objects references building ts).Ends := by
  induction ts with
  | nil =>
    rw [outputsIn]
    exact .pure _
  | cons t rest ih =>
    obtain ⟨first, others⟩ := List.forall_mem_cons.mp h
    rw [outputsIn]
    exact first.bind fun _ => (ih others).bind fun _ => .pure _

theorem outputFields_ends {fields : List (String × StaticType)}
    (h : ∀ field ∈ fields, (names.outputIn limit objects references building field.2).Ends) :
    (names.outputFields limit objects references building fields).Ends := by
  induction fields with
  | nil =>
    rw [outputFields]
    exact .pure _
  | cons field rest ih =>
    obtain ⟨name, t⟩ := field
    obtain ⟨first, others⟩ := List.forall_mem_cons.mp h
    rw [outputFields]
    exact first.bind fun _ => (ih others).bind fun _ => .pure _

/-- The output type of a type with the parameters of a schema's children ends if the output types of
the parameters do. -/
theorem outputIn_composite_ends {s : Schema} (hs : s.isComposite = true) {ts : List StaticType}
    (each : List.Forall₂ (fun _ t => t.isReference = false ∧
      (names.outputIn limit objects references building t).Ends) s.children ts) :
    (names.outputIn limit objects references building (.schema s.schemaClass (some ts))).Ends := by
  have inner {t : StaticType} (ht : t ∈ ts) :
      (names.outputIn limit objects references building t).Ends := by
    obtain ⟨_, _, _, ends⟩ := exists_left_of_forall₂ each ht
    exact ends
  cases s with
  | leaf | object | lazy => cases hs
  | array id element =>
    obtain ⟨t, _, ⟨proper, ends⟩, hnil, rfl⟩ := List.forall₂_cons_left_iff.mp each
    cases hnil
    rw [Schema.schemaClass, names.outputIn_array proper]
    exact ends.bind fun _ => .pure _
  | record id key value =>
    obtain ⟨t, _, ⟨proper, ends⟩, hrest, rfl⟩ := List.forall₂_cons_left_iff.mp each
    obtain ⟨u, _, ⟨proper', ends'⟩, hnil, rfl⟩ := List.forall₂_cons_left_iff.mp hrest
    cases hnil
    rw [Schema.schemaClass, names.outputIn_record proper proper']
    exact ends.bind fun _ => ends'.bind fun _ => .pure _
  | tuple id items =>
    rw [Schema.schemaClass, names.outputIn_tuple]
    exact (outputsIn_ends fun t => inner).bind fun _ => .pure _
  | union id options =>
    rw [Schema.schemaClass]
    cases ts with
    | nil =>
      rw [names.outputIn_union_nil]
      exact .pure _
    | cons t rest =>
      rw [names.outputIn_union_cons]
      exact (outputsIn_ends fun t => inner).bind fun us => .lift (StaticType.unionOf_ends us)
  | wrapper id w child =>
    obtain ⟨t, _, ⟨proper, ends⟩, hnil, rfl⟩ := List.forall₂_cons_left_iff.mp each
    cases hnil
    rw [Schema.schemaClass]
    cases hw : w.allowsNone with
    | true =>
      rw [names.outputIn_orNone hw proper]
      exact ends.bind fun u => .lift (StaticType.unionOf_ends [u, .none])
    | false =>
      rw [names.outputIn_wrapper hw proper]
      exact ends
  | pipe id input output =>
    obtain ⟨t, _, _, hrest, rfl⟩ := List.forall₂_cons_left_iff.mp each
    obtain ⟨u, _, ⟨proper, ends⟩, hnil, rfl⟩ := List.forall₂_cons_left_iff.mp hrest
    cases hnil
    rw [Schema.schemaClass, names.outputIn_pipe proper]
    exact ends

end Names

/-! ## Every type -/

namespace Scope

variable {scope : Scope} {names : Names} {owners : Owners} {ρ : Reading}
  {refers : NodeId → String → Prop} {bound : List ShapeId} {limit : Nat}

/-- Building the output type of a type ends if there is room for objects and there are enough
references to follow. -/
theorem outputIn_ends (legible : scope.Legible names owners ρ refers bound)
    {objects references : Nat} {building : List ShapeId} (room : Room bound objects building)
    {s : Schema} {t : StaticType} (reserve : scope.Reserve names refers references s)
    (hst : Describes ρ refers s t) :
    (names.outputIn limit objects references building t).Ends := by
  have notReference {s : Schema} {t : StaticType} (h : Describes ρ refers s t) :
      t.isReference = false :=
    h.not_isReference legible.traversable.lawful
  -- by recursion on the objects and then the references that are left, and on the type
  match s, t, reserve, hst with
  | _, _, _, .leaf hl =>
    obtain rfl := legible.leaf hl
    rw [names.outputIn_leaf]
    exact .pure _
  | _, _, reserve, .object hshape hnames hfields =>
    obtain ⟨k, rfl, rfl, hk, hbound⟩ := legible.shape hshape
    intro cache
    cases hcached : cache.lookup (.derived k) with
    | some u =>
      rw [names.exec_object_complete rfl hcached]
      exact .ok u
    | none =>
      cases hbuilding : building.contains (ShapeId.derived k) with
      | true =>
        rw [names.exec_object_building rfl hcached hbuilding]
        exact .ok _
      | false =>
        -- The room for objects is what ends this, whatever the references inside the fields are.
        have new : ShapeId.derived k ∉ building := by simpa using hbuilding
        obtain ⟨fewer, hfewer⟩ := room.pos new hbound
        rw [hfewer] at room ⊢
        rw [names.exec_object_new rfl hcached hbuilding
          (Names.fieldsOf_of_fault? (legible.traversable.faultless_fields hfields))]
        refine Stateful.Ends.bind (Names.outputFields_ends fun field hfield => ?_)
          (fun _ => .bind (.modify _) fun _ => .pure _) cache
        obtain ⟨property, hproperty, _, _, looked⟩ :=
          exists_left_of_forall₂ (legible.fields hnames hfields) hfield
        have inside := reserve.guarded.of_contains
          (.single (.child (Schema.property_mem_children _ hproperty)))
        exact outputIn_ends legible (room.enter new hbound) (.start inside) looked
  | _, _, reserve, .composite hs hts =>
    refine Names.outputIn_composite_ends hs ((forall₂_mem hts.forall₂).imp ?_)
    rintro c t ⟨hc, ht, h⟩
    exact ⟨notReference h, outputIn_ends legible room (reserve.beside (.child hs hc)) h⟩
  | _, _, reserve, .reference hn =>
    obtain ⟨s, t, htarget, hlookup, ht⟩ := legible.target hn
    -- Being guarded is enough to follow a reference, so here no case is left where none can be.
    obtain ⟨fewer, hfewer, reserve'⟩ := reserve.follow legible hn htarget
    rw [hfewer, names.outputIn_lazy, names.outputOfArg_reference _ hlookup]
    exact outputIn_ends legible room reserve' ht
  | _, _, reserve, .target hopens ht =>
    have htarget := legible.traversable.opens hopens
    rw [names.outputIn_lazy, names.outputOfArg_zero (notReference ht)]
    exact outputIn_ends legible room (reserve.beside (.target htarget)) ht
termination_by (objects, references, sizeOf t)
decreasing_by
  · exact .left _ _ (by omega)
  · refine .right _ (.right _ ?_)
    have := List.sizeOf_lt_of_mem ht
    simp only [StaticType.schema.sizeOf_spec, Option.some.sizeOf_spec]
    omega
  · exact .right _ (.left _ _ (by omega))
  · refine .right _ (.right _ ?_)
    simp only [StaticType.schema.sizeOf_spec, Option.some.sizeOf_spec, List.cons.sizeOf_spec]
    omega

/-- Whatever was derived before, building the output type of a grounded schema ends if every cycle of
the schema passes through an object. -/
theorem Registered.outputOf_ends {r : Registry} {o : Owners}
    (h : scope.Registered scope.NamedIfGrounded r o) (limit : Nat) {s : Schema} {t : StaticType}
    (hst : DescribesDerived o (scope.NamedIfGrounded r) s t)
    (ground : scope.Grounded (fun _ => False) s) (guarded : scope.Guarded s) :
    (r.names.outputOf limit t).Ends := by
  have legible : scope.Legible r.names o
      ((scope.reading o (scope.NamedAndGrounded r)).within (r.names.shapesAround t))
      (scope.NamedAndGrounded r) (r.names.shapesAround t) :=
    legible_of_entries (fun _ _ => h.grounded)
      (fun _ _ _ hn hn' => h.ready.tidy.injective hn.1 hn'.1)
      (r.names.shapeIds_subset_shapesAround t)
  have described : Describes (scope.reading o (scope.NamedAndGrounded r))
      (scope.NamedAndGrounded r) s t :=
    (describes_of_grounded hst ground).toReading
  refine outputIn_ends legible (.start _ _) (.start guarded) ?_
  exact described.within (List.subset_append_left _ _)

end Scope

end Schemata
