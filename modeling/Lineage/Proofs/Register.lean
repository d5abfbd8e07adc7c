import Lineage.Proofs.Listening
import Lineage.Proofs.PlainMap
import Lineage.Proofs.Upkeep

/-!
# What there is an entry for

In a store that never sweeps of its own accord, the frames with a record and the globals with a node
can be told from the checkpoints: a record is there for each frame in which a function was entered, and
only for frames that a checkpoint was about; a node is there just for the globals that were read or
written. `Registered` says so of the checkpoints so far, and a checkpoint that is accepted keeps it.
-/

namespace Lineage

/-! ### Keys of dictionaries and tables -/

namespace Dict

variable {κ α : Type} [DecidableEq κ]

theorem mem_keys_set {d : Dict κ α} {key other : κ} {value : α} :
    other ∈ (d.set key value).keys ↔ other = key ∨ other ∈ d.keys := by
  rw [mem_keys_iff, mem_keys_iff, get?_set]
  by_cases same : key = other
  · simp [same]
  · simp [same, Ne.symm same]

end Dict

namespace Table

variable {σ κ E : Type} [DecidableEq κ] {t : Table κ E}

theorem mem_keys_modify {key other : κ} (change : Entry E → Entry E) :
    other ∈ (t.modify key change).bindings.keys ↔ other ∈ t.bindings.keys := by
  rw [Dict.mem_keys_iff, Dict.mem_keys_iff]
  have found := find?_modify t key other change
  unfold find? at found
  rw [found]
  by_cases same : key = other
  · simp [same]
  · simp [same]

/-- The table sweeps only when it is told to, and has one entry for a key. -/
structure Keeping (t : Table κ E) : Prop where
  never : t.interval = 0
  nodup : t.bindings.keys.Nodup

theorem insert_of_never (never : t.interval = 0) (sweeping : Sweeping σ κ E) (key : κ) (content : E) :
    (t.insert sweeping key content).2.2 =
      { t with
        bindings := t.bindings.set key ⟨t.created, false, content⟩
        inserts := t.inserts + 1
        created := t.created + 1 } := by
  unfold insert beforeInsert
  simp only [never, Nat.lt_irrefl, false_and, if_false]

namespace Keeping

theorem insert (keeping : t.Keeping) (sweeping : Sweeping σ κ E) (key : κ) (content : E) :
    (t.insert sweeping key content).2.2.Keeping := by
  rw [insert_of_never keeping.never]
  exact ⟨keeping.never, Dict.nodup_set keeping.nodup _ _⟩

theorem mem_insert (keeping : t.Keeping) (sweeping : Sweeping σ κ E) (key : κ) (content : E) {other : κ} :
    other ∈ (t.insert sweeping key content).2.2.bindings.keys ↔
      other = key ∨ other ∈ t.bindings.keys := by
  rw [insert_of_never keeping.never, Dict.mem_keys_set]

theorem modify (keeping : t.Keeping) (key : κ) (change : Entry E → Entry E) :
    (t.modify key change).Keeping := by
  unfold Table.modify
  split
  · exact ⟨keeping.never, Dict.nodup_set keeping.nodup _ _⟩
  · exact keeping

end Keeping

end Table

variable {K : Kinds} {S : Type}

/-! ### What a checkpoint tells -/

namespace Checkpoint

/-- The frame of the function that is entered. -/
def entered? (c : Checkpoint K) : Option K.Frame :=
  match c.moment with
  | .enter => if c.site.categories.contains .functionBoundary then some c.frame else none
  | _ => none

/-- The global that has been read or written. -/
def accessed? (c : Checkpoint K) : Option String :=
  match c.moment with
  | .leave _ => if c.site.categories.toList.any Category.usesGlobal then c.site.globalName else none
  | _ => none

variable {c : Checkpoint K}

theorem entered?_eq_some_iff {frame : K.Frame} :
    c.entered? = some frame ↔
      c.moment = .enter ∧ c.site.categories.contains .functionBoundary = true ∧ c.frame = frame := by
  unfold entered?
  cases c.moment with
  | enter => simp
  | leave value => simp
  | unwind exception => simp

theorem accessed?_eq_some_iff {name : String} :
    c.accessed? = some name ↔ (∃ value, c.moment = .leave value) ∧
      (∃ category ∈ c.site.categories.toList, category.usesGlobal = true) ∧
      c.site.globalName = some name := by
  unfold accessed?
  cases c.moment with
  | enter => simp
  | leave value => simp
  | unwind exception => simp

end Checkpoint

/-- There are entries for `told` at least, and for `most` at most. -/
structure Registered (told most : List (Checkpoint K)) (s : Shadow K) : Prop where
  keeping : s.store.frames.Keeping
  nodup : s.store.globals.keys.Nodup
  entered : ∀ c ∈ told, ∀ frame, c.entered? = some frame → frame ∈ s.store.frames.bindings.keys
  owned : ∀ frame ∈ s.store.frames.bindings.keys, ∃ c ∈ most, c.frame = frame
  accessed : ∀ c ∈ told, ∀ name, c.accessed? = some name → name ∈ s.store.globals.keys
  access : ∀ name ∈ s.store.globals.keys, ∃ c ∈ most, c.accessed? = some name

namespace Registered

variable {told most more : List (Checkpoint K)} {s t : Shadow K} {c : Checkpoint K}

theorem start (shadow : Shadow K) (empty : shadow.store = .ofInterval 0) :
    Registered [] [] shadow := by
  constructor <;> rw [empty]
  · exact ⟨rfl, List.nodup_nil⟩
  · exact List.nodup_nil
  all_goals exact List.forall_mem_nil _

theorem congr (h : Registered told most s) (frames : t.store.frames = s.store.frames)
    (globals : t.store.globals = s.store.globals) : Registered told most t := by
  constructor
  · exact frames ▸ h.keeping
  · exact globals ▸ h.nodup
  · exact frames ▸ h.entered
  · exact frames ▸ h.owned
  · exact globals ▸ h.accessed
  · exact globals ▸ h.access

theorem mono (h : Registered told most s) (sub : most ⊆ more) : Registered told more s where
  keeping := h.keeping
  nodup := h.nodup
  entered := h.entered
  owned frame mem := (h.owned frame mem).imp fun _ => .imp_left (sub ·)
  accessed := h.accessed
  access name mem := (h.access name mem).imp fun _ => .imp_left (sub ·)

/-- Where all checkpoints are about frames in which functions are entered, just these have records. -/
theorem mem_keys_iff (h : Registered told told s)
    (about : ∀ c ∈ told, c.frame ∈ told.filterMap Checkpoint.entered?) {frame : K.Frame} :
    frame ∈ s.store.frames.bindings.keys ↔ frame ∈ told.filterMap Checkpoint.entered? := by
  constructor
  · intro bound
    obtain ⟨c, mem, rfl⟩ := h.owned frame bound
    exact about c mem
  · intro entered
    obtain ⟨c, mem, enters⟩ := List.mem_filterMap.mp entered
    exact h.entered c mem frame enters

/-- One checkpoint more, of which the tables know already. -/
theorem add (h : Registered told most s)
    (entered : ∀ frame, c.entered? = some frame → frame ∈ s.store.frames.bindings.keys)
    (accessed : ∀ name, c.accessed? = some name → name ∈ s.store.globals.keys) :
    Registered (told ++ [c]) most s where
  keeping := h.keeping
  nodup := h.nodup
  entered other mem := by
    rcases List.mem_append.mp mem with mem | mem
    · exact h.entered other mem
    · rw [List.mem_singleton.mp mem]
      exact entered
  owned := h.owned
  accessed other mem := by
    rcases List.mem_append.mp mem with mem | mem
    · exact h.accessed other mem
    · rw [List.mem_singleton.mp mem]
      exact accessed
  access := h.access

/-- The rules of a checkpoint make no entries but for it. -/
theorem upkeep {category : Category} (mem : c ∈ most) (applied : category ∈ c.site.categories.toList) :
    Upkeep c category (Registered told most) fun _ => True where
  aside h frames globals := h.congr frames globals
  opens alive h := by
    refine { h with keeping := h.keeping.insert alive c.frame {}, entered := ?_, owned := ?_ }
    · exact fun other told frame entered =>
        (h.keeping.mem_insert alive c.frame {}).mpr (.inr (h.entered other told frame entered))
    · intro frame bound
      rcases (h.keeping.mem_insert alive c.frame {}).mp bound with rfl | old
      · exact ⟨c, mem, rfl⟩
      · exact h.owned frame old
  edits f content h := by
    refine { h with keeping := h.keeping.modify f _, entered := ?_, owned := ?_ }
    · exact fun other told frame entered =>
        (Table.mem_keys_modify _).mpr (h.entered other told frame entered)
    · exact fun frame bound => h.owned frame ((Table.mem_keys_modify _).mp bound)
  sets node leaves uses named h := by
    refine { h with nodup := Dict.nodup_set h.nodup _ _, accessed := ?_, access := ?_ }
    · exact fun other told name accessed =>
        Dict.mem_keys_set.mpr (.inr (h.accessed other told name accessed))
    · intro name bound
      rcases Dict.mem_keys_set.mp bound with rfl | old
      · exact ⟨c, mem, Checkpoint.accessed?_eq_some_iff.mpr ⟨⟨_, leaves⟩, ⟨_, applied, uses⟩, named⟩⟩
      · exact h.access name old
  complains _ := trivial
  unserved _ := trivial

end Registered

/-! ### The entry that a rule makes -/

/-- One of some pieces of work brings about `P`, which all of them uphold. -/
theorem ends_forM_of_mem {ε σ β : Type} {P : σ → Prop} {Q : ε → Prop} {start : σ → Prop}
    {works : β → ExceptT ε (StateM σ) PUnit} {list : List β} {b : β} (mem : b ∈ list)
    (each : ∀ b ∈ list, Upholds start Q (works b) ∧ Upholds P Q (works b))
    (brings : ∀ s, start s → Ends (works b) s fun r t => r = .ok () → P t) (s : σ) (holds : start s) :
    Ends (list.forM works) s fun r t => r = .ok () → P t := by
  induction list generalizing s with
  | nil => cases mem
  | cons first rest ih =>
    have later := fun b mem => each b (List.mem_cons_of_mem first mem)
    change Ends (works first >>= fun _ => rest.forM works) s _
    rw [ends_bind]
    rcases List.mem_cons.mp mem with rfl | mem
    · apply (brings s holds).mono
      intro r t brought
      cases r with
      | error fault => exact nofun
      | ok _ =>
        apply (Upholds.forM (fun b mem => (later b mem).2) t (brought rfl)).mono
        exact fun r t kept _ => kept.1
    · apply ((each first List.mem_cons_self).1 s holds).mono
      intro r t kept
      cases r with
      | error fault => exact nofun
      | ok _ => exact ih mem later t kept.1

namespace Tracer

variable {tracer : Tracer} {host : Host K} {c : Checkpoint K} {told most : List (Checkpoint K)}

/-- A function that is entered gets a record. -/
theorem brings_record {s : Shadow K} (keeping : s.store.frames.Keeping) (site : Site K)
    (frame : K.Frame) :
    Ends (applyEnter host site frame .functionBoundary) s fun _ t =>
      frame ∈ t.store.frames.bindings.keys := by
  change Ends ((fun _ => ()) <$> ShadowM.attachFrame host frame) s _
  rw [ends_map]
  unfold ShadowM.attachFrame
  simp only [ends_bind, ends_get, ends_set, ends_pure]
  apply (ShadowM.ends_noteDropped _ _).mono
  rintro r t ⟨rfl, same⟩
  rw [same.1]
  exact (keeping.mem_insert _ frame {}).mpr (.inl rfl)

/-- A global that has a node keeps it. -/
theorem upkeep_global (c : Checkpoint K) (category : Category) (name : String) :
    Upkeep c category (fun s => name ∈ s.store.globals.keys) fun _ => True where
  aside there _ globals := globals ▸ there
  opens _ there := there
  edits _ _ there := there
  sets _ _ _ _ there := Dict.mem_keys_set.mpr (.inr there)
  complains _ := trivial
  unserved _ := trivial

theorem mem_keys_current {V : Type} (slots : Slots V) (name : String) (fresh : Nat) :
    name ∈ (slots.current name fresh).2.2.keys := by
  unfold Slots.current
  cases found : slots.get? name with
  | some node =>
    rw [Dict.mem_keys_iff, found]
    exact nofun
  | none => exact Dict.mem_keys_set.mpr (.inl rfl)

/-- A global that is read or written gets a node. -/
theorem brings_global {category : Category} (uses : category.usesGlobal = true) {name : String}
    (named : c.site.globalName = some name) (value : K.Value) (s : Shadow K) :
    Ends (tracer.applyLeave host c.site c.frame value category) s fun r t =>
      r = .ok () → name ∈ t.store.globals.keys := by
  have up := upkeep_global c category name
  cases category with
  | useGlobalDefStack =>
    unfold applyLeave Site.requireGlobal Site.demand
    rw [ends_bind, named, ShadowM.ends_settle]
    dsimp only
    rw [ends_bind]
    apply (ShadowM.ends_currentGlobal name s).mono
    rintro r mid ⟨rfl, read⟩
    have there : name ∈ mid.store.globals.keys := read.globals ▸ mem_keys_current _ _ _
    exact fun _ => (up.upholds_pushNode value [_] mid there).1
  | useStackDefGlobal =>
    unfold applyLeave Site.requireGlobal Site.demand
    rw [ends_bind, named, ShadowM.ends_settle]
    dsimp only
    rw [ends_bind]
    have popped : Ends (ShadowM.withRecord host [] c.frame (popInto c.site value)) s
      fun _ _ => True := trivial
    apply popped.mono
    rintro (fault | node) mid -
    · exact nofun
    dsimp only
    rw [ends_bind]
    apply (ShadowM.ends_writeGlobal name node mid).mono
    rintro r late ⟨rfl, written⟩
    have there : name ∈ late.store.globals.keys :=
      written.globals ▸ Dict.mem_keys_set.mpr (.inl rfl)
    exact fun _ => (up.upholds_pushOn node late there).1
  | _ => cases uses

/-- The rule of this category makes an entry at the checkpoint. -/
inductive MakesEntry (c : Checkpoint K) : Category → Prop
  | record (enters : c.moment = .enter) : MakesEntry c .functionBoundary
  | global {category : Category} {value : K.Value} {name : String} (leaves : c.moment = .leave value)
      (uses : category.usesGlobal = true) (named : c.site.globalName = some name) :
      MakesEntry c category

theorem MakesEntry.brings {category : Category} (makes : MakesEntry c category) (mem : c ∈ most)
    (applied : category ∈ c.site.categories.toList) (s : Shadow K) (h : Registered told most s) :
    Ends (tracer.rule host c category) s fun r t => r = .ok () → Registered (told ++ [c]) most t := by
  have kept := (Registered.upkeep mem applied).upholds_rule tracer host s h
  cases makes with
  | record enters =>
    unfold rule at kept ⊢
    rw [enters] at kept ⊢
    apply (kept.both (brings_record h.keeping c.site c.frame)).mono
    rintro r t ⟨⟨still, -⟩, there⟩ -
    apply still.add
    · intro frame entered
      obtain ⟨-, -, rfl⟩ := Checkpoint.entered?_eq_some_iff.mp entered
      exact there
    · intro name accessed
      obtain ⟨⟨value, leaves⟩, -⟩ := Checkpoint.accessed?_eq_some_iff.mp accessed
      cases enters.symm.trans leaves
  | @global _ value name leaves uses named =>
    unfold rule at kept ⊢
    rw [leaves] at kept ⊢
    apply (kept.both (brings_global uses named value s)).mono
    rintro r t ⟨⟨still, -⟩, there⟩ done
    apply still.add
    · intro frame entered
      cases leaves.symm.trans (Checkpoint.entered?_eq_some_iff.mp entered).1
    · intro other accessed
      obtain ⟨-, -, named'⟩ := Checkpoint.accessed?_eq_some_iff.mp accessed
      cases named.symm.trans named'
      exact there done

/-- What no rule makes an entry for is nothing to register. -/
theorem nothing_to_register (none' : ∀ category ∈ c.site.categories.toList, ¬ MakesEntry c category) :
    c.entered? = none ∧ c.accessed? = none := by
  constructor
  · refine Option.eq_none_iff_forall_ne_some.mpr fun frame entered => ?_
    obtain ⟨enters, boundary, -⟩ := Checkpoint.entered?_eq_some_iff.mp entered
    exact none' _ (CategorySet.mem_toList.mpr boundary) (.record enters)
  · refine Option.eq_none_iff_forall_ne_some.mpr fun name accessed => ?_
    obtain ⟨⟨value, leaves⟩, ⟨category, mem, uses⟩, named⟩ :=
      Checkpoint.accessed?_eq_some_iff.mp accessed
    exact none' category mem (.global leaves uses named)

/-- The tracer registers a checkpoint that it accepts. -/
theorem registers (tracer : Tracer) (host : Host K) (c : Checkpoint K) {s : Shadow K}
    (h : Registered told told s) :
    Ends (tracer.react host c) s fun r t => r = .ok () → Registered (told ++ [c]) (told ++ [c]) t := by
  have mem : c ∈ told ++ [c] := List.mem_append_right _ (List.mem_singleton.mpr rfl)
  have start : Registered told (told ++ [c]) (noted s c) :=
    (h.mono (List.subset_append_left _ _)).congr (congrArg Store.frames (sameState_noted s c).1)
      (congrArg Store.globals (sameState_noted s c).1)
  have upholds : ∀ told', ∀ category ∈ c.site.categories.toList,
      Upholds (Registered told' (told ++ [c])) (fun _ => True)
        (ExceptT.adapt (·.atSite c.site.id) (tracer.rule host c category)) :=
    fun told' category applied =>
      ((Registered.upkeep mem applied).upholds_rule tracer host).adapt fun _ _ => trivial
  unfold Ends
  rw [run_react]
  by_cases entry : ∃ category ∈ c.site.categories.toList, MakesEntry c category
  · obtain ⟨category, applied, makes⟩ := entry
    refine ends_forM_of_mem applied
      (fun category mem => ⟨upholds told category mem, upholds (told ++ [c]) category mem⟩) ?_ _ start
    intro s h
    rw [ends_adapt]
    apply (makes.brings mem applied s h).mono
    intro r t registered done
    cases r with
    | error fault => cases done
    | ok _ => exact registered rfl
  · obtain ⟨unentered, unaccessed⟩ :=
      nothing_to_register fun category mem makes => entry ⟨category, mem, makes⟩
    have kept := (Upholds.forM (upholds told) _ start).1
    intro _
    apply kept.add
    · intro frame entered
      cases unentered.symm.trans entered
    · intro name accessed
      cases unaccessed.symm.trans accessed

end Tracer

/-- A session registers a checkpoint that it accepts, whatever its other listeners do. -/
theorem Session.registers (id : SessionId) (settings : Settings) (logCheckpoints : Bool)
    {listeners : List (Listener K S)} (ofProgram : ∀ l ∈ listeners, l.OfProgram) (host : Host K)
    (c : Checkpoint K) {told : List (Checkpoint K)} {stage : Stage K S}
    (h : Registered told told stage.shadow) :
    Ends ((ofListeners id settings logCheckpoints ⟨listeners⟩).react host c) stage fun r after =>
      r = .ok () → Registered (told ++ [c]) (told ++ [c]) after.shadow := by
  have apart : ∀ l ∈ listeners, l.Apart := fun l mem => (ofProgram l mem).apart
  apply (ends_react id settings logCheckpoints apart {} (Shadow.SameState.refl stage.shadow)).mono
  rintro r after ⟨same, answered⟩ rfl
  have registered := Tracer.registers {} host c h
  unfold Ends at registered
  rcases outcome : ((Tracer.react {} host c).run.run stage.shadow).1 with fault | _
  · rw [outcome] at answered
    cases answered
  · exact (registered outcome).congr (congrArg Store.frames same.1) (congrArg Store.globals same.1)

end Lineage
