import Lineage.Proofs.Ownership
import Lineage.Proofs.Shadow
import Lineage.Proofs.Slice
import Lineage.Toy.World

/-!
# What the toy host keeps alive

`World.Holds` says which entities are reached from the handles along the shares of entities. Entities
that own each other in a circle survive as well: `World.Alive` says which survive, and the count of
owners agrees with it (`living_of_alive`, `alive_of_living`). Frames own their callers and nothing
else owns a frame, so that what is held never comes to be dropped while a run goes on.
-/

namespace Lineage.Toy.World

variable {w : World} {held : List Entity} {e other : Entity}

/-- The entity has been made. -/
def Made (w : World) : Entity → Prop
  | .frame id => id.number < w.frames.size
  | .object id => id.number < w.objects.size
  | .scope id => id.number < w.scopes.size

/-- The entities that an entity has a share of. -/
def sharesOf (w : World) : Entity → List Entity
  | .frame id => ((w.frames[id.number]?).map frameShares).getD []
  | .object id => ((w.objects[id.number]?).map slotShares).getD []
  | .scope id => ((w.scopes[id.number]?).map slotShares).getD []

/-- The entity is on a handle, or is owned by one that is held. -/
inductive Holds (w : World) (held : List Entity) : Entity → Prop
  | direct {e : Entity} (mem : e ∈ held) : Holds w held e
  | through {e other : Entity} (h : Holds w held e) (mem : other ∈ w.sharesOf e) :
      Holds w held other

theorem Holds.mono {more : List Entity} (sub : ∀ e ∈ held, Holds w more e) (h : Holds w held e) :
    Holds w more e := by
  induction h with
  | direct mem => exact sub _ mem
  | through _ mem ih => exact .through ih mem

theorem Holds.of_subset {more : List Entity} (sub : held ⊆ more) (h : Holds w held e) :
    Holds w more e := h.mono fun _ mem => .direct (sub mem)

theorem shares_place (made : w.Made e) :
    w.shares[w.place e]? = some ((w.sharesOf e).map w.place) := by
  unfold shares
  cases e with
  | frame id =>
    have bound : id.number < w.frames.size := made
    simp [place, sharesOf, bound, Array.getElem?_append]
  | object id =>
    have bound : id.number < w.objects.size := made
    simp [place, sharesOf, bound, Array.getElem?_append]
  | scope id =>
    have bound : id.number < w.scopes.size := made
    simp [place, sharesOf, bound, Nat.add_assoc]

theorem made_of_shares (mem : other ∈ w.sharesOf e) : w.Made e := by
  cases e with
  | frame id =>
    rcases Nat.lt_or_ge id.number w.frames.size with made | out
    · exact made
    · simp [sharesOf, Array.getElem?_eq_none out] at mem
  | object id =>
    rcases Nat.lt_or_ge id.number w.objects.size with made | out
    · exact made
    · simp [sharesOf, Array.getElem?_eq_none out] at mem
  | scope id =>
    rcases Nat.lt_or_ge id.number w.scopes.size with made | out
    · exact made
    · simp [sharesOf, Array.getElem?_eq_none out] at mem

/-! ### What is alive -/

/-- The entity is one of a set of which each is owned from outside, or by one of the set. -/
def Alive (w : World) (owned : Entity → Prop) (e : Entity) : Prop :=
  ∃ P : Entity → Prop, P e ∧ ∀ x, P x → owned x ∨ ∃ y, P y ∧ x ∈ w.sharesOf y

namespace Alive

variable {owned more : Entity → Prop}

theorem owner (h : w.Alive owned e) : owned e ∨ ∃ y, w.Alive owned y ∧ e ∈ w.sharesOf y := by
  obtain ⟨P, here, support⟩ := h
  exact (support e here).imp_right fun ⟨y, there, mem⟩ => ⟨y, ⟨P, there, support⟩, mem⟩

/-- A set of which each is alive, or owned by one of the set, is alive. -/
theorem of_support {P : Entity → Prop} (here : P e)
    (support : ∀ x, P x → w.Alive owned x ∨ ∃ y, P y ∧ x ∈ w.sharesOf y) : w.Alive owned e := by
  refine ⟨fun x => P x ∨ w.Alive owned x, .inl here, ?_⟩
  have alive : ∀ x, w.Alive owned x →
      owned x ∨ ∃ y, (P y ∨ w.Alive owned y) ∧ x ∈ w.sharesOf y := fun x there =>
    there.owner.imp_right fun ⟨y, there, mem⟩ => ⟨y, .inr there, mem⟩
  rintro x (inside | there)
  · rcases support x inside with there | ⟨y, there, mem⟩
    · exact alive x there
    · exact .inr ⟨y, .inl there, mem⟩
  · exact alive x there

theorem direct (h : owned e) : w.Alive owned e :=
  ⟨owned, h, fun _ => .inl⟩

theorem mono (sub : ∀ e, owned e → w.Alive more e) (h : w.Alive owned e) : w.Alive more e :=
  .of_support h fun x there =>
    there.owner.imp (sub x) fun ⟨y, there, mem⟩ => ⟨y, there, mem⟩

/-- What is alive after a change was alive before it, if the change has given away nothing else. -/
theorem of_sharesOf {later : World}
    (shares : ∀ e other, other ∈ later.sharesOf e → other ∈ w.sharesOf e ∨ w.Alive owned other)
    (direct : ∀ e, more e → w.Alive owned e) (h : later.Alive more e) : w.Alive owned e := by
  refine .of_support h fun x there => ?_
  rcases there.owner with outside | ⟨y, there, mem⟩
  · exact .inl (direct x outside)
  · rcases shares y x mem with old | new
    · exact .inr ⟨y, there, old⟩
    · exact .inl new

/-- What has not been made owns nothing. -/
theorem of_unmade {x : Entity} (unmade : ¬ w.Made x)
    (h : w.Alive (fun e => e = x ∨ owned e) e) : e = x ∨ w.Alive owned e := by
  by_cases new : e = x
  · exact .inl new
  · refine .inr (.of_support (P := fun e => w.Alive (fun e => e = x ∨ owned e) e ∧ e ≠ x)
      ⟨h, new⟩ ?_)
    rintro y ⟨there, other⟩
    rcases there.owner with (same | outside) | ⟨z, there, mem⟩
    · exact absurd same other
    · exact .inl (.direct outside)
    · refine .inr ⟨z, ⟨there, ?_⟩, mem⟩
      rintro rfl
      exact unmade (made_of_shares mem)

end Alive

theorem Holds.alive {owned : Entity → Prop} (sub : ∀ e ∈ held, owned e) (h : w.Holds held e) :
    w.Alive owned e := by
  refine .of_support h fun x there => ?_
  cases there with
  | direct mem => exact .inl (.direct (sub x mem))
  | through owner mem => exact .inr ⟨_, owner, mem⟩

/-- What is alive has an owner. -/
theorem living_of_alive (made : w.Made e) (h : w.Alive (· ∈ held) e) :
    ((w.living held).cell? (w.place e)).isSome := by
  refine Heap.census_keeps w.shares (held.map w.place)
    (fun i => ∃ e, w.Made e ∧ w.Alive (· ∈ held) e ∧ w.place e = i) ?_ ⟨e, made, h, rfl⟩
  rintro i ⟨e, made, h, rfl⟩
  refine ⟨(Array.getElem?_eq_some_iff.mp (shares_place made)).1, ?_⟩
  rcases h.owner with mem | ⟨owner, alive, mem⟩
  · exact .inl (List.mem_map.mpr ⟨e, mem, rfl⟩)
  · have ownerMade := made_of_shares mem
    exact .inr ⟨_, _, ⟨owner, ownerMade, alive, rfl⟩, shares_place ownerMade,
      List.mem_map.mpr ⟨e, mem, rfl⟩⟩

theorem living_of_holds (made : w.Made e) (h : w.Holds held e) :
    ((w.living held).cell? (w.place e)).isSome := living_of_alive made (h.alive fun _ => id)

/-- Entities that have been made have places of their own. -/
theorem place_injective (made : w.Made e) (otherMade : w.Made other)
    (same : w.place e = w.place other) : e = other := by
  rcases e with ⟨⟨i⟩⟩ | ⟨⟨i⟩⟩ | ⟨⟨i⟩⟩ <;> rcases other with ⟨⟨j⟩⟩ | ⟨⟨j⟩⟩ | ⟨⟨j⟩⟩
  all_goals simp only [Made, place, Entity.frame.injEq, Entity.object.injEq, Entity.scope.injEq,
    FrameId.mk.injEq, ObjectId.mk.injEq, ScopeId.mk.injEq, reduceCtorEq] at made otherMade same ⊢
  all_goals omega

theorem made_scope_of_place {id : ScopeId} (made : w.Made e) (same : w.place (.scope id) = w.place e) :
    w.Made (.scope id) := by
  rcases e with ⟨⟨i⟩⟩ | ⟨⟨i⟩⟩ | ⟨⟨i⟩⟩
  all_goals simp only [Made, place] at made same ⊢
  all_goals omega

theorem exists_place {i : Nat} (bound : i < w.shares.size) : ∃ e, w.Made e ∧ w.place e = i := by
  simp only [shares, Array.size_append, Array.size_map] at bound
  by_cases inFrames : i < w.frames.size
  · exact ⟨.frame ⟨i⟩, inFrames, rfl⟩
  · by_cases inObjects : i < w.frames.size + w.objects.size
    · refine ⟨.object ⟨i - w.frames.size⟩, ?_, ?_⟩ <;> simp only [Made, place] <;> omega
    · refine ⟨.scope ⟨i - (w.frames.size + w.objects.size)⟩, ?_, ?_⟩ <;>
        simp only [Made, place] <;> omega

/-- What is left in a place is on a handle, or is owned by an entity that is left. -/
theorem owner_of_living {i : Nat} (living : ((w.living held).cell? i).isSome) :
    (∃ handle ∈ held, w.place handle = i) ∨
      ∃ owner, w.Made owner ∧ ((w.living held).cell? (w.place owner)).isSome ∧
        ∃ owned ∈ w.sharesOf owner, w.place owned = i := by
  obtain ⟨-, onHandle | ⟨j, refs, left, there, mem⟩⟩ := Heap.census_supports _ _ _ living
  · exact .inl (List.mem_map.mp onHandle)
  · obtain ⟨owner, ownerMade, rfl⟩ := exists_place (Array.getElem?_eq_some_iff.mp there).1
    rw [shares_place ownerMade] at there
    cases there
    exact .inr ⟨owner, ownerMade, left, List.mem_map.mp mem⟩

/-- What has an owner is alive, if nothing owns an entity that has not been made; the places of scopes
    are the last ones, so that a scope that has not been made stands for nothing else. -/
theorem alive_of_living (shares : ∀ e other, other ∈ w.sharesOf e → w.Made other)
    (handles : ∀ e ∈ held, w.Made e ∨ ∃ id, e = .scope id) (made : w.Made e)
    (living : ((w.living held).cell? (w.place e)).isSome) : w.Alive (· ∈ held) e := by
  refine .of_support (P := fun x => w.Made x ∧ ((w.living held).cell? (w.place x)).isSome)
    ⟨made, living⟩ ?_
  rintro x ⟨made, living⟩
  rcases owner_of_living living with
    ⟨handle, mem, same⟩ | ⟨owner, ownerMade, left, owned, mem, same⟩
  · have handleMade : w.Made handle := by
      rcases handles handle mem with made | ⟨id, rfl⟩
      · exact made
      · exact made_scope_of_place made same
    exact .inl (.direct (place_injective made handleMade same.symm ▸ mem))
  · exact .inr ⟨owner, ⟨ownerMade, left⟩,
      place_injective made (shares owner owned mem) same.symm ▸ mem⟩

/-- The entity belongs to the value of a node that is kept, or of one that it was computed from. -/
def KeptBy (nodes : List (Node Value)) (e : Entity) : Prop :=
  ∃ node v, Node.Reached nodes node ∧ node.value = some v ∧ e ∈ Entity.ofValue v

theorem keptBy_of_mem {nodes : List (Node Value)} (mem : e ∈ nodeShares nodes) : KeptBy nodes e := by
  obtain ⟨node, inSlice, mem⟩ := List.mem_flatMap.mp mem
  obtain ⟨v, value, inside⟩ := List.mem_flatMap.mp mem
  exact ⟨node, v, Node.reached_of_mem_slice inSlice, Option.mem_toList.mp value, inside⟩

/-- Where nodes are told apart by their numbers, all that they keep has a share. -/
theorem mem_of_keptBy {G : Node Value → Prop} (told : Node.Told G) {nodes : List (Node Value)}
    (inside : ∀ node ∈ nodes, G node) (kept : KeptBy nodes e) : e ∈ nodeShares nodes := by
  obtain ⟨node, v, reached, value, mem⟩ := kept
  refine List.mem_flatMap.mpr ⟨node, (Node.mem_slice_iff told inside).mpr reached, ?_⟩
  rw [value]
  exact List.mem_flatMap.mpr ⟨v, List.mem_singleton.mpr rfl, mem⟩

/-- A frame that is held is not dropped, whatever nodes are kept. -/
theorem not_mayDrop {id : FrameId} (made : w.Made (.frame id)) (h : w.Holds held (.frame id))
    (nodes : List (Node Value)) : ¬ (w.host held nodes).MayDrop id := by
  rintro ⟨kept, dropped⟩
  have alive := living_of_holds made
    (h.of_subset (List.subset_append_left held (nodeShares (kept ++ nodes))))
  have same : ((w.host held nodes).survivors kept).frame id =
      ((w.living (held ++ nodeShares (kept ++ nodes))).cell? (w.place (.frame id))).isSome := rfl
  rw [same, alive] at dropped
  cases dropped

/-- An object that the handles and the nodes which are kept keep alive survives. -/
theorem object_survives {id : ObjectId} {nodes : List (Node Value)} {G : Node Value → Prop}
    (told : Node.Told G) (inside : ∀ node ∈ nodes, G node) (made : w.Made (.object id))
    (alive : w.Alive (fun e => e ∈ held ∨ KeptBy nodes e) (.object id)) :
    ((w.host held []).survivors nodes).object id = true := by
  have counted : w.Alive (· ∈ held ++ nodeShares (nodes ++ [])) (.object id) := by
    refine alive.mono ?_
    rintro e (mem | kept)
    · exact .direct (List.mem_append_left _ mem)
    · rw [List.append_nil]
      exact .direct (List.mem_append_right _ (mem_of_keptBy told inside kept))
  exact living_of_alive made counted

/-! ### Callers -/

theorem frame_not_mem_ofValue {id : FrameId} (value : Value) :
    Entity.frame id ∉ Entity.ofValue value := by
  cases value <;> simp [Entity.ofValue]

theorem frame_not_mem_slotShares {id : FrameId} (slots : Dict String Value) :
    Entity.frame id ∉ slotShares slots := by
  simp [slotShares, frame_not_mem_ofValue]

/-- A frame is owned by what it has called, and by nothing else. -/
theorem frame_mem_sharesOf {id : FrameId} (mem : .frame id ∈ w.sharesOf e) :
    ∃ callee frame, e = .frame callee ∧ w.frame? callee = some frame ∧ frame.caller = some id := by
  cases e with
  | frame callee =>
    cases found : w.frames[callee.number]? with
    | none => simp [sharesOf, found] at mem
    | some frame =>
      refine ⟨callee, frame, rfl, found, ?_⟩
      simpa [sharesOf, found, frameShares, frame_not_mem_ofValue] using mem
  | object owner =>
    cases found : w.objects[owner.number]? with
    | none => simp [sharesOf, found] at mem
    | some slots => simp [sharesOf, found, frame_not_mem_slotShares] at mem
  | scope owner =>
    cases found : w.scopes[owner.number]? with
    | none => simp [sharesOf, found] at mem
    | some slots => simp [sharesOf, found, frame_not_mem_slotShares] at mem

theorem caller_mem_sharesOf {id caller : FrameId} {frame : Frame} (found : w.frame? id = some frame)
    (called : frame.caller = some caller) : .frame caller ∈ w.sharesOf (.frame id) := by
  unfold frame? at found
  simp [sharesOf, found, frameShares, called]

/-- A frame that is held holds its caller. -/
theorem Holds.caller {id caller : FrameId} {frame : Frame} (h : w.Holds held (.frame id))
    (found : w.frame? id = some frame) (called : frame.caller = some caller) :
    w.Holds held (.frame caller) := .through h (caller_mem_sharesOf found called)

/-- The frames of `w` are in `later` as they were. -/
def Grows (w later : World) : Prop :=
  ∀ id frame, w.frame? id = some frame → later.frame? id = some frame

theorem Grows.refl (w : World) : w.Grows w := fun _ _ => id

theorem Grows.trans {u v : World} (first : w.Grows u) (second : u.Grows v) : w.Grows v :=
  fun id frame found => second id frame (first id frame found)

theorem made_frame {id : FrameId} : w.Made (.frame id) ↔ ∃ frame, w.frame? id = some frame := by
  constructor
  · intro made
    exact ⟨_, Array.getElem?_eq_getElem made⟩
  · rintro ⟨frame, found⟩
    exact (Array.getElem?_eq_some_iff.mp found).1

theorem Grows.made {later : World} {id : FrameId} (grows : w.Grows later)
    (made : w.Made (.frame id)) : later.Made (.frame id) := by
  obtain ⟨frame, found⟩ := made_frame.mp made
  exact made_frame.mpr ⟨frame, grows id frame found⟩

theorem grows_addFrame (w : World) (frame : Frame) : w.Grows (w.addFrame frame).2 := by
  intro id old found
  obtain ⟨bound, rfl⟩ := Array.getElem?_eq_some_iff.mp found
  simp [frame?, addFrame, Array.getElem?_push, Nat.ne_of_lt bound]

theorem made_addFrame (made : w.Made e) (frame : Frame) : (w.addFrame frame).2.Made e := by
  cases e with
  | frame id => exact (grows_addFrame w frame).made made
  | object id => exact made
  | scope id => exact made

theorem made_addObject (made : w.Made e) : w.addObject.2.Made e := by
  cases e with
  | object id => exact Nat.lt_of_lt_of_le made (by simp [addObject])
  | frame id => exact made
  | scope id => exact made

theorem frame?_addFrame (w : World) (frame : Frame) :
    (w.addFrame frame).2.frame? (w.addFrame frame).1 = some frame := by
  simp [frame?, addFrame]

/-- A frame that was made before is not the new one. -/
theorem ne_of_made {id : FrameId} (made : w.Made (.frame id)) (frame : Frame) :
    id ≠ (w.addFrame frame).1 := by
  rintro rfl
  exact Nat.lt_irrefl _ made

/-- A frame that is held stays held while frames are made. -/
theorem Holds.grow {later : World} {id : FrameId} (grows : w.Grows later)
    (h : w.Holds held (.frame id)) : later.Holds held (.frame id) := by
  generalize same : Entity.frame id = e at h
  induction h generalizing id with
  | direct mem => exact .direct (same ▸ mem)
  | through _ mem ih =>
    subst same
    obtain ⟨callee, frame, rfl, found, called⟩ := frame_mem_sharesOf mem
    exact (ih rfl).caller (grows callee frame found) called

/-- What was held by the handles is held by a callee, where the frame it was called from was the only
    handle that is given up. -/
theorem Holds.of_callee {callee caller : FrameId} {frame : Frame} {owned : List Entity}
    (found : w.frame? callee = some frame) (called : frame.caller = some caller)
    (h : w.Holds (owned ++ [.frame caller]) e) : w.Holds (owned ++ [.frame callee]) e := by
  refine h.mono fun other mem => ?_
  rcases List.mem_append.mp mem with mem | mem
  · exact .direct (List.mem_append_left _ mem)
  · obtain rfl := List.mem_singleton.mp mem
    exact Holds.caller (.direct (List.mem_append_right _ (List.mem_singleton.mpr rfl))) found called

/-! ### Changes of the world -/

theorem mem_slotShares_set {slots : Dict String Value} {name : String} {value : Value}
    (mem : other ∈ slotShares (slots.set name value)) :
    other ∈ slotShares slots ∨ other ∈ Entity.ofValue value := by
  obtain ⟨v, inside, owned⟩ := List.mem_flatMap.mp mem
  rcases Dict.mem_values_set inside with rfl | old
  · exact .inr owned
  · exact .inl (List.mem_flatMap.mpr ⟨v, old, owned⟩)

theorem sharesOf_setProperty {id : ObjectId} {name : String} {value : Value}
    (mem : other ∈ (w.setProperty id name value).sharesOf e) :
    other ∈ w.sharesOf e ∨ other ∈ Entity.ofValue value := by
  cases e with
  | frame _ => exact .inl mem
  | scope _ => exact .inl mem
  | object owner =>
    simp only [sharesOf, setProperty, Array.getElem?_modify] at mem ⊢
    split at mem
    · cases found : w.objects[owner.number]? with
      | none => simp [found] at mem
      | some slots =>
        rw [found] at mem
        exact mem_slotShares_set mem
    · exact .inl mem

theorem sharesOf_setClassVariable {id : ScopeId} {name : String} {value : Value}
    (mem : other ∈ (w.setClassVariable id name value).sharesOf e) :
    other ∈ w.sharesOf e ∨ other ∈ Entity.ofValue value := by
  cases e with
  | frame _ => exact .inl mem
  | object _ => exact .inl mem
  | scope owner =>
    simp only [sharesOf, setClassVariable, Array.getElem?_modify] at mem ⊢
    split at mem
    · cases found : w.scopes[owner.number]? with
      | none => simp [found] at mem
      | some slots =>
        rw [found] at mem
        exact mem_slotShares_set mem
    · exact .inl mem

theorem sharesOf_addObject (mem : other ∈ w.addObject.2.sharesOf e) : other ∈ w.sharesOf e := by
  cases e with
  | frame _ => exact mem
  | scope _ => exact mem
  | object owner =>
    simp only [sharesOf, addObject, Array.getElem?_push] at mem ⊢
    split at mem
    · cases mem
    · exact mem

theorem sharesOf_addFrame {frame : Frame} (mem : other ∈ (w.addFrame frame).2.sharesOf e) :
    other ∈ w.sharesOf e ∨ other ∈ frameShares frame := by
  cases e with
  | object _ => exact .inl mem
  | scope _ => exact .inl mem
  | frame owner =>
    simp only [sharesOf, addFrame, Array.getElem?_push] at mem ⊢
    split at mem
    · exact .inr mem
    · exact .inl mem

/-! ### Values at hand -/

/-- Whatever the value refers to is held. -/
def HoldsValue (w : World) (held : List Entity) (value : Value) : Prop :=
  ∀ e ∈ Entity.ofValue value, w.Holds held e

variable {value : Value}

theorem holdsValue_nil : w.HoldsValue held .nil := fun _ mem => nomatch mem

/-- What is read under a name, if anything is there at all, is among what the names own. -/
theorem mem_slotShares {slots? : Option (Dict String Value)} {name : String} {e : Entity}
    (mem : e ∈ Entity.ofValue ((slots?.bind (·.get? name)).getD .nil)) :
    e ∈ (slots?.map slotShares).getD [] := by
  cases slots? with
  | none => cases mem
  | some slots =>
    cases read : slots.get? name with
    | none =>
      rw [Option.bind_some, read] at mem
      cases mem
    | some v =>
      rw [Option.bind_some, read] at mem
      exact List.mem_flatMap.mpr ⟨v, Dict.mem_values_of_get? read, mem⟩

theorem holdsValue_property {id : ObjectId} (h : w.Holds held (.object id)) (name : String) :
    w.HoldsValue held (w.property id name) :=
  fun _ mem => .through h (mem_slotShares mem)

theorem holdsValue_classVariable {id : ScopeId} (h : w.Holds held (.scope id)) (name : String) :
    w.HoldsValue held (w.classVariable id name) :=
  fun _ mem => .through h (mem_slotShares mem)

theorem holdsValue_argument {id : FrameId} {frame : Frame} {index : Nat}
    (h : w.Holds held (.frame id)) (found : w.frame? id = some frame)
    (argument : frame.args[index]? = some value) : w.HoldsValue held value := by
  intro e mem
  refine .through h ?_
  unfold frame? at found
  simp only [sharesOf, found, Option.map_some, Option.getD_some, frameShares]
  exact List.mem_append_right _
    (List.mem_flatMap.mpr ⟨value, List.mem_of_getElem? argument, mem⟩)

end Lineage.Toy.World
