import BlockScript.Host.Headless
import BlockScript.Player
import BlockScript.Proofs.Turns

/-!
# Projects never go wrong

Whatever is asked of a project after it has been compiled and loaded, in whatever order, no script
of it asks for something that is not there.

* `Machine.stepWithin_well`: a frame of a sound machine goes well;
* `Request`: what can be asked of a machine from outside;
* `Machine.sound_load`: a machine that is loaded is sound;
* `Player.never_faults`: nothing that is asked of a loaded project ends in a fault of a script.
-/

namespace BlockScript

namespace Machine

variable {H : Type}

/-! ## 1. Frames -/

/-- The machine is sound after something that went well. -/
abbrev Fine {α : Type} : α → Machine H → Prop := fun _ m => m.Sound .fitting

theorem waiting_of_ready? {m : Machine H} {seat : Nat} {t : Thread} (h : m.ready? seat = some t) :
    .waiting t ∈ m.queue := by
  unfold ready? at h
  split at h
  · rename_i thread hseat
    split at h
    · cases h
      exact List.mem_of_getElem? hseat
    · cases h
  · cases h

theorem continues_lend {I : Invariant} (m : Machine H) (seat : Nat) (t : Thread) :
    m.Continues I (m.lend seat t) := by
  refine continues_of_queue rfl rfl rfl fun thread hmem => ?_
  rcases List.mem_or_eq_of_mem_set hmem with hold | heq
  · exact hold
  · cases heq

/-- A thread goes back to its seat if it can go on in the program of a target that lives. -/
theorem continues_settle {I : Invariant} {m : Machine H} (seat : Nat) {s : Seat}
    (hs : ∀ t, s = .waiting t →
      ∃ target, m.target? t.target = some target ∧ I.thread target.program t) :
    m.Continues I (m.settle seat s) := by
  refine continues_of_threads rfl rfl rfl fun _ thread hmem => ?_
  unfold settle at hmem
  dsimp only at hmem
  split at hmem
  · rcases List.mem_or_eq_of_mem_set hmem with hold | heq
    · exact .inl hold
    · exact .inr (hs thread heq.symm)
  · exact .inl hmem

theorem sound_endPass {I : Invariant} {m : Machine H} (h : m.Sound I) : m.endPass.Sound I := by
  have hcontinues : m.Continues I m.endPass := by
    refine continues_of_threads rfl rfl rfl fun _ thread hmem => .inr ?_
    obtain ⟨seat, hseat, heq⟩ := List.mem_filterMap.mp hmem
    split at heq
    · rename_i t
      cases heq
      obtain ⟨target, htarget, hthread⟩ := h.thread t hseat
      exact ⟨target, htarget, I.ready hthread true⟩
    · cases heq
  exact (hcontinues h).1

variable [Host H]

theorem takeTurn_well (steps seat : Nat) {m : Machine H} (h : m.Sound .fitting) {t : Thread}
    (ht : ∃ target, m.target? t.target = some target ∧ t.Fits target.program) :
    Well Fine (takeTurn steps seat t m) := by
  obtain ⟨target, htarget, hfits⟩ := ht
  unfold takeTurn
  rw [htarget]
  dsimp only
  have hholds : Act.Holds target.program target.isStage ⟨m, t, seat, target.program⟩ :=
    ⟨h, rfl, target, htarget, rfl, rfl⟩
  have hwell := Act.resume_well steps hholds hfits
  generalize Act.resume steps (⟨m, t, seat, target.program⟩ : Turn H) = result at hwell ⊢
  cases hwell with
  | exhausted turn => exact .exhausted _
  | @ok outcome turn hended =>
    refine .ok (continues_settle seat (fun thread hseat => ?_) hended.machine).1
    cases outcome with
    | yielded =>
      cases hseat
      exact hended.thread rfl
    | finished | detached => cases hseat

theorem visit_well (steps seat : Nat) {m : Machine H} (h : m.Sound .fitting) :
    Well Fine (visit steps seat m) := by
  refine Well.bind (P := fun m' m'' => m = m' ∧ m = m'') (.ok ⟨rfl, rfl⟩) ?_
  rintro _ _ ⟨rfl, rfl⟩
  cases hready : m.ready? seat with
  | none => exact .ok h
  | some t =>
    obtain ⟨hsound, hretains⟩ := continues_lend m seat t h
    obtain ⟨target, htarget, hfits⟩ := h.thread t (waiting_of_ready? hready)
    obtain ⟨target', htarget', hs⟩ := hretains.target _ _ htarget
    rw [← hs.program] at hfits
    exact takeTurn_well steps seat hsound ⟨target', htarget', hfits⟩

/-- Visits go well one after the other. -/
theorem visits_well (steps : Nat) (seats : List Nat) {m : Machine H} (h : m.Sound .fitting) :
    Well Fine (seats.forM (visit steps) m) := by
  induction seats generalizing m with
  | nil => exact .ok h
  | cons seat rest ih => exact Well.bind (visit_well steps seat h) fun _ _ h' => ih h'

theorem pass_well (steps : Nat) {m : Machine H} (h : m.Sound .fitting) : Well Fine (pass steps m) := by
  have hvisual : m.Continues .fitting { m with visual := false } := continues_of_eq rfl rfl rfl rfl
  have hvisits := visits_well steps (List.range m.queue.length) (hvisual h).1
  refine Well.bind (P := fun _ m' => { m with visual := false } = m') (.ok rfl) ?_
  rintro _ _ rfl
  refine Well.bind (P := fun m' m'' => { m with visual := false } = m' ∧ m' = m'')
    (.ok ⟨rfl, rfl⟩) ?_
  rintro _ _ ⟨rfl, rfl⟩
  refine Well.bind hvisits fun _ m' h' => ?_
  exact Well.bind (P := fun _ => Sound .fitting) (.ok h') fun _ _ h'' =>
    Well.bind (P := fun _ => Sound .fitting) (.ok (sound_endPass h'')) fun _ _ h''' => .ok h'''

theorem passes_well (steps limit : Nat) {m : Machine H} (h : m.Sound .fitting) :
    Well Fine (passes steps limit m) := by
  induction limit generalizing m with
  | zero => exact .ok h
  | succ limit ih =>
    refine Well.bind (pass_well steps h) fun added m' h' => ?_
    refine Well.bind (P := fun _ => Sound .fitting) (.ok h') fun _ m'' h'' => ?_
    split
    · exact ih h''
    · exact .ok h''

/-- **A frame of a sound machine goes well**, whatever the number of its passes. -/
theorem stepWithin_well (steps limit : Nat) {m : Machine H} (h : m.Sound .fitting) :
    Well Fine (stepWithin steps limit m) := by
  refine Well.bind (passes_well steps limit h) fun _ m' h' => ?_
  have hclock : m'.Continues .fitting { m' with clock := m'.clock.advance, frame := m'.frame + 1 } :=
    continues_of_eq rfl rfl rfl rfl
  exact .ok (hclock h').1

end Machine

/-! ## 2. Requests -/

/-- What can be asked of a machine from outside, between two frames and for a frame. -/
inductive Request (H : Type)
  | greenFlag
  | trigger (e : Event)
  | triggerFor (id : TargetId) (e : Event)
  | switchBackdrop (v : Value)
  | createClone (of : TargetId)
  | deleteClone (id : TargetId)
  | stopAll
  | stopTarget (id : TargetId) (keep : Option Nat)
  | halt
  | resetTimer
  /-- Something happens to the host. -/
  | attend (f : H → H)
  /-- A frame, of at most so many passes, in each turn of which at most so many steps are taken. -/
  | step (steps limit : Nat)

namespace Request

variable {H : Type} [Host H]

/-- Does what is asked. -/
def perform : Request H → Machine.Ticking H Unit
  | .greenFlag => modify fun m => m.greenFlag.2
  | .trigger e => modify fun m => (m.trigger e).2
  | .triggerFor id e => modify fun m => (m.triggerFor id e).2
  | .switchBackdrop v => modify fun m => (m.switchBackdrop v).2
  | .createClone of => modify fun m => (m.createClone of).2
  | .deleteClone id => modify fun m => (m.deleteClone id).2
  | .stopAll => modify Machine.stopAll
  | .stopTarget id keep => modify fun m => m.stopTarget id keep
  | .halt => modify Machine.halt
  | .resetTimer => modify Machine.resetTimer
  | .attend f => modify fun m => { m with host := f m.host }
  | .step steps limit => Machine.stepWithin steps limit

/-- Does what is asked, one request after the other. -/
def performAll : List (Request H) → Machine.Ticking H Unit
  | [] => return
  | r :: rest => do
    r.perform
    performAll rest

/-- The change that is asked for, if it is made at once; a frame takes longer. -/
def change? : Request H → Option (Machine H → Machine H)
  | .greenFlag => some fun m => m.greenFlag.2
  | .trigger e => some fun m => (m.trigger e).2
  | .triggerFor id e => some fun m => (m.triggerFor id e).2
  | .switchBackdrop v => some fun m => (m.switchBackdrop v).2
  | .createClone of => some fun m => (m.createClone of).2
  | .deleteClone id => some fun m => (m.deleteClone id).2
  | .stopAll => some Machine.stopAll
  | .stopTarget id keep => some fun m => m.stopTarget id keep
  | .halt => some Machine.halt
  | .resetTimer => some Machine.resetTimer
  | .attend f => some fun m => { m with host := f m.host }
  | .step .. => none

theorem perform_of_change? {r : Request H} {f : Machine H → Machine H} (h : r.change? = some f)
    (m : Machine H) : r.perform m = .ok () (f m) := by
  cases r with
  | step => cases h
  | _ =>
    cases h
    rfl

/-- **What is asked of a sound machine between two frames leaves it sound.** -/
theorem sound_change {I : Invariant} {r : Request H} {f : Machine H → Machine H}
    (h : r.change? = some f) {m : Machine H} (hm : m.Sound I) : (f m).Sound I := by
  have hreset (m : Machine H) : m.Continues I m.resetTimer :=
    Machine.continues_of_eq rfl rfl rfl rfl
  cases r <;> cases h
  case greenFlag.refl =>
    exact (((hreset m.stopAll).trans (Machine.continues_trigger _ _)) (Machine.sound_stopAll hm)).1
  case trigger.refl e => exact (m.continues_trigger e hm).1
  case triggerFor.refl id e => exact (m.continues_triggerFor id e hm).1
  case switchBackdrop.refl v => exact (m.continues_switchBackdrop v hm).1
  case createClone.refl of => exact (m.continues_createClone of hm).1
  case deleteClone.refl id => exact Machine.sound_deleteClone hm id
  case stopAll.refl => exact Machine.sound_stopAll hm
  case stopTarget.refl id keep => exact (m.continues_stopTarget id keep hm).1
  case halt.refl =>
    have hhalt : m.Continues I m.halt :=
      Machine.continues_of_queue rfl rfl rfl fun _ ht => absurd ht List.not_mem_nil
    exact (hhalt hm).1
  case resetTimer.refl => exact (hreset m hm).1
  case attend.refl f =>
    have hhost : m.Continues I { m with host := f m.host } :=
      Machine.continues_of_eq rfl rfl rfl rfl
    exact (hhost hm).1

open Machine (Fine)

/-- **Each request goes well**, and leaves a sound machine sound. -/
theorem perform_well (r : Request H) {m : Machine H} (h : m.Sound .fitting) :
    Well Fine (r.perform m) := by
  cases hr : r.change? with
  | some f =>
    rw [perform_of_change? hr]
    exact .ok (sound_change hr h)
  | none =>
    cases r with
    | step steps limit => exact Machine.stepWithin_well steps limit h
    | _ => cases hr

/-- Requests go well one after the other. -/
theorem performAll_well (requests : List (Request H)) {m : Machine H} (h : m.Sound .fitting) :
    Well Fine (performAll requests m) := by
  induction requests generalizing m with
  | nil => exact .ok h
  | cons r rest ih => exact Well.bind (r.perform_well h) fun _ _ h' => ih h'

end Request

/-! ## 3. Loading -/

theorem mem_of_mapM_eq_ok {ε α β : Type} {f : α → Except ε β} {l : List α} {bs : List β}
    (h : l.mapM f = .ok bs) : ∀ b ∈ bs, ∃ a ∈ l, f a = .ok b := by
  induction l generalizing bs with
  | nil =>
    cases h
    exact fun _ hb => absurd hb List.not_mem_nil
  | cons a rest ih =>
    rw [List.mapM_cons] at h
    obtain ⟨b, hb, h⟩ := except_bind_eq_ok.mp h
    obtain ⟨bs', hbs', h⟩ := except_bind_eq_ok.mp h
    cases h
    refine List.forall_mem_cons.mpr ⟨⟨a, List.mem_cons_self, hb⟩, fun b' hb' => ?_⟩
    obtain ⟨a', ha', heq⟩ := ih hbs' b' hb'
    exact ⟨a', List.mem_cons_of_mem a ha', heq⟩

/-- The programs of a project have layouts. -/
theorem Project.sound_compile {p : Project} {programs : List Program}
    (h : p.compile = .ok programs) : ∀ q ∈ programs, q.Sound := by
  intro q hq
  obtain ⟨t, -, ht⟩ := mem_of_mapM_eq_ok h q hq
  exact Compile.sound_compile ht

namespace Machine

variable {H : Type}

/-- What a machine is like when it has been loaded: each target stands at its identity, with its
    program. -/
theorem exists_of_load {p : Project} {programs : List Program} {o : Options} {host : H}
    {s : Surroundings} {m : Machine H} (h : Machine.load p programs o host s = .ok m) :
    ∃ targets : List Target, ∃ stage, m.targets = targets.map some ∧
      targets.find? Target.isStage = some stage ∧ m.stage = stage.id ∧
      (m.free = [] ∧ m.queue = [] ∧ m.running = none) ∧
      ∀ (i : Nat) (t : Target), targets[i]? = some t → t.id = i ∧ t.program ∈ programs := by
  unfold Machine.load at h
  obtain ⟨options, -, h⟩ := except_bind_eq_ok.mp h
  dsimp only at h
  split at h
  · obtain ⟨_, hthrow, -⟩ := except_bind_eq_ok.mp h
    cases hthrow
  split at h
  · cases h
  rename_i stage hstage
  cases h
  refine ⟨_, stage, rfl, hstage, rfl, ⟨rfl, rfl, rfl⟩, fun i t ht => ?_⟩
  rw [List.getElem?_map, List.getElem?_zipIdx, Option.map_map] at ht
  obtain ⟨⟨data, program⟩, hpair, rfl⟩ := Option.map_eq_some_iff.mp ht
  exact ⟨Nat.zero_add i, (List.of_mem_zip (List.mem_of_getElem? hpair)).2⟩

/-- **A machine that is loaded is sound**, if its programs are as an invariant asks. -/
theorem sound_load {I : Invariant} {p : Project} {programs : List Program}
    (hprograms : ∀ q ∈ programs, I.program q) {o : Options} {host : H} {s : Surroundings}
    {m : Machine H} (h : Machine.load p programs o host s = .ok m) : m.Sound I := by
  obtain ⟨targets, stage, htargets, hfind, hstage, ⟨hfree, hqueue, -⟩, hat⟩ := exists_of_load h
  have htarget (id : TargetId) : m.target? id = targets[id]? := by
    unfold target?
    rw [htargets, List.getElem?_map]
    cases targets[id]? <;> rfl
  refine ⟨fun id t ht => ?_, fun id t ht => ?_, ⟨stage, ?_, List.find?_some hfind⟩, ?_, ?_, ?_⟩
  · rw [htarget] at ht
    exact (hat id t ht).1
  · rw [htarget] at ht
    exact hprograms _ (hat id t ht).2
  · obtain ⟨i, hi⟩ := List.getElem?_of_mem (List.mem_of_find?_eq_some hfind)
    rw [stage?, hstage, htarget, (hat i stage hi).1]
    exact hi
  · rw [hfree]
    exact fun _ hid => absurd hid List.not_mem_nil
  · rw [hfree]
    exact List.nodup_nil
  · rw [hqueue]
    exact fun _ ht => absurd ht List.not_mem_nil

end Machine

/-- **Nothing that is asked of a loaded project ends in a fault of a script**, in whatever order it
    is asked: each frame ends as it should, unless it does not come to its end within the steps that
    it was given, however many these are. -/
theorem Player.never_faults {H : Type} [Host H] {p : Project} {o : Options} {host : H}
    {s : Surroundings} {m : Machine H} (h : Player.loadProject p o host s = .ok m)
    (requests : List (Request H)) :
    (∃ m', Request.performAll requests m = .ok () m') ∨
      ∃ m', Request.performAll requests m = .error .exhausted m' := by
  obtain ⟨programs, hcompile, hload⟩ := except_bind_eq_ok.mp h
  have hsound : m.Sound .fitting := Machine.sound_load (Project.sound_compile hcompile) hload
  have hwell := Request.performAll_well requests hsound
  generalize Request.performAll requests m = result at hwell
  cases hwell with
  | @ok u m' _ => exact .inl ⟨m', rfl⟩
  | exhausted m' => exact .inr ⟨m', rfl⟩

/-- A sprite that greets by a procedure and clones itself, and whose clones delete themselves. -/
def cloning : TargetData where
  name := "Cloning"
  blocks := ⟨[
    ("a", .block { opcode := "event_whenflagclicked", next := some "b", topLevel := true }),
    ("b", .block {
      opcode := "procedures_call", next := some "c"
      mutation := some { proccode := some "greet" } }),
    ("c", .block {
      opcode := "control_create_clone_of"
      inputs := ⟨[("CLONE_OPTION", .literal (.text "_myself_"))], List.pairwise_singleton _ _⟩ }),
    ("d", .block {
      opcode := "procedures_definition", next := some "e", topLevel := true
      inputs := ⟨[("custom_block", .block "h")], List.pairwise_singleton _ _⟩ }),
    ("e", .block {
      opcode := "looks_say"
      inputs := ⟨[("MESSAGE", .literal (.text "hello"))], List.pairwise_singleton _ _⟩ }),
    ("f", .block { opcode := "control_start_as_clone", next := some "g", topLevel := true }),
    ("g", .block { opcode := "control_delete_this_clone" }),
    ("h", .block {
      opcode := "procedures_prototype", mutation := some { proccode := some "greet" } })],
    by decide⟩

/-- The sprite on a stage. -/
def cloningProject : Project := ⟨[{ isStage := true, name := "Stage" }, cloning]⟩

/-- The flag, a clone from outside, and frames. -/
def cloningRequests : List (Request Headless) :=
  [.greenFlag, .step 100 5, .createClone 1, .step 100 5, .deleteClone 2, .stopAll, .step 100 5]

/-- What has been said when all is done that is asked. -/
def Request.speechAfter (requests : List (Request Headless)) (m : Machine Headless) :
    Option (List (String × String)) :=
  match performAll requests m with
  | .ok _ m' => some m'.host.speech.toList
  | .error _ _ => none

theorem Player.cloning_never_faults :
    ∃ m m' : Machine Headless,
      Player.loadProject cloningProject {} {} .still = .ok m ∧
      Request.performAll cloningRequests m = .ok () m' ∧
      m'.host.speech.toList = [("Cloning", "hello")] := by
  have hrun : (Player.loadProject cloningProject {} ({} : Headless) .still).toOption.map
      (Request.speechAfter cloningRequests) = some (some [("Cloning", "hello")]) := by
    decide +kernel
  obtain ⟨m, hm, hspeech⟩ := Option.map_eq_some_iff.mp hrun
  have hload := eq_ok_of_toOption hm
  unfold Request.speechAfter at hspeech
  rcases Player.never_faults hload cloningRequests with ⟨m', hplay⟩ | ⟨m', hplay⟩
  · rw [hplay] at hspeech
    exact ⟨m, m', hload, hplay, Option.some.inj hspeech⟩
  · rw [hplay] at hspeech
    cases hspeech

end BlockScript
