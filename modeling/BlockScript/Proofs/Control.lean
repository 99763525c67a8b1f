import BlockScript.Proofs.Statements
import BlockScript.Proofs.Threads

/-!
# How a thread goes on

After a statement a thread goes on, perhaps with other statements first, or it leaves. Here it is
said once with which statements it can go on, and how it has changed by then.

* `Act.Onward`: every way to go on;
* `Act.exec_onward`: a thread that goes on does so in one of these ways;
* `Act.Departs`, `Act.exec_departs`: every way to leave for a label, and that there is no other;
* `Act.Acting`, `Act.made_exec_acting`: what statements are made of that leave the calls alone;
* `Act.keepsThread_exec`: only a few statements change more of a thread than its registers;
* `Act.keepsPlace_exec`: no statement changes whose turn it is.
-/

namespace BlockScript

/-- The label for which a thread leaves. -/
def Exit.label? : Exit → Option Label
  | .jump l | .yield l => some l
  | .stop | .detached => none

/-- Whether the statement changes the save stack or the calls of a thread. -/
def Stmt.isStacking : Stmt → Bool
  | .save | .restore | .endCall | .call .. => true
  | _ => false

/-- What the statement may do to the registers of a thread that goes on after it. -/
def Stmt.Writes : Stmt → Registers → Registers → Prop
  | .setRegister r _, rs, rs' => ∃ x, rs' = rs.set r x
  | .broadcast _ true, rs, rs' | .switchBackdrop _ true, rs, rs' => ∃ g, rs' = { rs with group := g }
  | .ask _, rs, rs' | .sound (.playUntilDone _), rs, rs' | .collectAnswer, rs, rs' =>
    ∃ k, rs' = { rs with ticket := k }
  | .label _, rs, rs' | .repeat .., rs, rs' | .while .., rs, rs' => rs' = rs
  | _, rs, rs' => rs.ticket = none → rs' = rs

namespace Act

variable {H : Type}

/-- How a thread goes on after a statement: with which statements first, and as what thread. -/
inductive Onward : Stmt → Thread → List Stmt → Thread → Prop
  | save (t : Thread) : Onward .save t [] t.save
  | restore {t t' : Thread} (h : t.restore? = some t') : Onward .restore t [] t'
  /-- Outside of any procedure there is nothing to leave. -/
  | endCall {t : Thread} (h : t.calls = []) : Onward .endCall t [] t
  | done {s : Stmt} {t t' : Thread} (hterm : s.isTerminator = false)
      (hstack : s.isStacking = false) (hbranch : ∀ cond yes no, s ≠ .branch cond yes no)
      (h : Thread.Kin t t') (hw : s.Writes t.registers t'.registers) : Onward s t [] t'
  | yes {cond : Expr} {yes no : List Stmt} {t t' : Thread} (h : Thread.Kin t t')
      (hr : t'.registers = t.registers) : Onward (.branch cond yes no) t yes t'
  | no {cond : Expr} {yes no : List Stmt} {t t' : Thread} (h : Thread.Kin t t')
      (hr : t'.registers = t.registers) : Onward (.branch cond yes no) t no t'
  | «repeat» {times : Expr} {body : List Stmt} {t t' : Thread} (left : Float)
      (h : Thread.Kin t t') (hr : t'.registers = t.registers) :
      Onward (.repeat times body) t (body ++ [.repeat (.number left) body]) t'
  | «while» {cond : Expr} {body : List Stmt} {t t' : Thread} (h : Thread.Kin t t')
      (hr : t'.registers = t.registers) :
      Onward (.while cond body) t (body ++ [.while cond body]) t'
  | forever {body : List Stmt} {t : Thread} :
      Onward (.forever body) t (body ++ [.forever body]) t

/-- How a thread leaves for a label: from which statement, and as what thread. -/
inductive Departs (p : Program) : Stmt → Thread → Label → Thread → Prop
  | queue {l : Label} (t : Thread) : Departs p (.queue l) t l t
  | forceQueue {l : Label} (t : Thread) : Departs p (.forceQueue l) t l t
  | endCall {l : Label} {t t' : Thread} (h : t.endCall? = some (l, t')) :
      Departs p .endCall t l t'
  | call {id : ProcId} {args : List Expr} {resume : Label} {procedure : Procedure}
      {t t' : Thread} {values : List Value} (hp : p.procedure? id = some procedure)
      (h : Thread.Kin t t') (hr : t'.registers = t.registers)
      (hvalues : values.length = args.length) :
      Departs p (.call id args resume) t procedure.entry
        (t'.call id resume values (procedure.warp || 0 < t'.warp))

/-- What holds of each part of a statement holds of each part of what a thread goes on with after
    it. Only the count of a loop is another. -/
theorem Onward.forall_nodes {F : Stmt → Prop}
    (hF : ∀ times left body, F (.repeat times body) → F (.repeat (.number left) body))
    {s : Stmt} {t t' : Thread} {code : List Stmt} (h : Onward s t code t')
    (hs : ∀ n ∈ Script.nodesOf s, F n) : ∀ n ∈ Script.nodes code, F n := by
  have hloop {loop : Stmt} {body : List Stmt}
      (hnodes : Script.nodesOf loop = loop :: Script.nodes body) (hself : F loop)
      (hbody : ∀ n ∈ Script.nodes body, F n) :
      ∀ n ∈ Script.nodes (body ++ [loop]), F n := by
    refine Script.forall_nodes_append.mpr ⟨hbody, ?_⟩
    refine Script.forall_nodes_cons.mpr ⟨?_, Script.forall_nodes_nil⟩
    rw [hnodes]
    exact List.forall_mem_cons.mpr ⟨hself, hbody⟩
  cases h with
  | save | restore | endCall | done => exact Script.forall_nodes_nil
  | yes => exact (Script.forall_nodesOf_branch.mp hs).2.1
  | no => exact (Script.forall_nodesOf_branch.mp hs).2.2
  | «repeat» left =>
    obtain ⟨hself, hbody⟩ := List.forall_mem_cons.mp hs
    exact hloop rfl (hF _ _ _ hself) hbody
  | «while» | forever =>
    obtain ⟨hself, hbody⟩ := List.forall_mem_cons.mp hs
    exact hloop rfl hself hbody

/-- A thread that goes on is inside of as many procedures as before. -/
theorem Onward.length_calls {s : Stmt} {th th' : Thread} {code : List Stmt}
    (h : Onward s th code th') : th'.calls.length = th.calls.length := by
  have hstack (t : Thread) (saved : List Registers) :
      (t.withSaveStack saved).calls.length = t.calls.length := by
    unfold Thread.withSaveStack
    cases t.calls <;> rfl
  cases h with
  | save => exact hstack _ _
  | restore h =>
    obtain ⟨_, _, -, rfl⟩ := Thread.exists_of_restore? h
    exact hstack _ _
  | endCall | forever => rfl
  | done _ _ _ h | yes h | no h | «repeat» _ h | «while» h => exact h.length_calls

/-! ## 1. Nothing else first, and no label -/

/-- If the thread goes on after the act, then with no other statements first. -/
def Straight (x : Act H Control) : Prop :=
  ∀ (t t' : Turn H) (code : List Stmt), x t = .ok (.onward code) t' → code = []

theorem Straight.bind {α : Type} {x : Act H α} {f : α → Act H Control}
    (hf : ∀ a, Straight (f a)) : Straight (x >>= f) := by
  intro t t' code h
  obtain ⟨a, s, -, hs⟩ := bind_eq_ok.mp h
  exact hf a _ _ _ hs

theorem straight_next : Straight (next (H := H)) := by
  intro t t' code h
  cases h
  rfl

theorem straight_leave (e : Exit) : Straight (return .leave e : Act H Control) := by
  intro t t' code h
  cases h

theorem ifSeated_apply (t : Turn H) :
    ifSeated t = .ok (if t.machine.isRunning t.seat then .onward [] else .leave .detached) t := by
  simp only [ifSeated, bind_apply, get_apply]
  split <;> rfl

/-- After an event a sender that waits remembers the group, and goes on if it has its seat still. -/
theorem execEvent_apply (wait : Bool) (send : Machine H → GroupId × Machine H) (t : Turn H) :
    execEvent wait send t =
      .ok (if (send t.machine).2.isRunning t.seat then .onward [] else .leave .detached)
        { t with
          machine := (send t.machine).2
          thread := if wait then t.thread.setGroup (some (send t.machine).1) else t.thread } := by
  simp only [execEvent, bind_apply, ask_apply]
  cases wait <;> exact ifSeated_apply _

theorem straight_ifSeated : Straight (ifSeated (H := H)) := by
  intro t t' code h
  rw [ifSeated_apply] at h
  split at h
  · cases h
    rfl
  · cases h

/-- If the thread leaves after the act, then for no label. -/
def Homeward (x : Act H Control) : Prop :=
  ∀ (t t' : Turn H) (e : Exit), x t = .ok (.leave e) t' → e.label? = none

theorem Homeward.bind {α : Type} {x : Act H α} {f : α → Act H Control}
    (hf : ∀ a, Homeward (f a)) : Homeward (x >>= f) := by
  intro t t' e h
  obtain ⟨a, s, -, hs⟩ := bind_eq_ok.mp h
  exact hf a _ _ _ hs

theorem homeward_onward (code : List Stmt) : Homeward (return .onward code : Act H Control) := by
  intro t t' e h
  cases h

theorem homeward_leave {e : Exit} (he : e.label? = none) :
    Homeward (return .leave e : Act H Control) := by
  intro t t' e' h
  cases h
  exact he

theorem homeward_ifSeated : Homeward (ifSeated (H := H)) := by
  intro t t' e h
  rw [ifSeated_apply] at h
  split at h
  · cases h
  · cases h
    rfl

/-! ## 2. Events -/

theorem straight_execEvent (wait : Bool) (send : Machine H → GroupId × Machine H) :
    Straight (execEvent wait send) := by
  refine .bind fun _ => ?_
  dsimp only
  split
  · exact .bind fun _ => straight_ifSeated
  · exact straight_ifSeated

theorem homeward_execEvent (wait : Bool) (send : Machine H → GroupId × Machine H) :
    Homeward (execEvent wait send) := by
  refine .bind fun _ => ?_
  dsimp only
  split
  · exact .bind fun _ => homeward_ifSeated
  · exact homeward_ifSeated

/-! ## 3. Statements -/

variable [Host H]

/-- What senses only keeps the thread. -/
theorem Made.keepsThread_sensing {r : Prop} {α : Type} {x : Act H α} (h : Made (Sensing r) α x) :
    KeepsThread x :=
  (h.working (w := True) (d := False)).moving.keepsThread

/-- The small acts of a statement that neither saves nor restores, calls nor returns: those of work,
    and whatever is asked of the machine or changes it. -/
inductive Acting : (α : Type) → Act H α → Prop
  | moving {α : Type} {x : Act H α} (h : Moving True True True α x) : Acting α x
  | ask {α : Type} (f : Machine H → α × Machine H) : Acting α (ask f)
  | modifyMachine (f : Machine H → Machine H) : Acting Unit (modifyMachine f)
  | ifSeated : Acting Control ifSeated

theorem Made.acting {α : Type} {x : Act H α} (h : Made (Sensing True) α x) : Made Acting α x :=
  h.mono fun _ _ h => .moving (.working (.sensing h))

theorem made_execEvent (wait : Bool) (send : Machine H → GroupId × Machine H) :
    Made Acting Control (execEvent wait send) := by
  refine .bind (.prim (.ask send)) fun group => ?_
  dsimp only
  split
  · have hgroup : Working True True True Unit
        (modifyThread (H := H) fun t => t.setGroup (some group)) :=
      .registers (fun rs => { rs with group := some group }) (.inl trivial)
    exact .bind (.prim (.moving (.working hgroup))) fun _ => .prim .ifSeated
  · exact .prim .ifSeated

/-- **What a statement is made of** that neither saves nor restores, calls nor returns. -/
theorem made_exec_acting {s : Stmt} (hs : s.isStacking = false) :
    Made Acting Control (exec (H := H) s) := by
  have hplain {s : Stmt} (h : s.isPlain = true) : Made Acting Control (exec (H := H) s) := by
    obtain ⟨x, hx, he⟩ := made_exec_plain (H := H) h
    rw [he]
    exact .bind (hx.mono fun _ _ h => .moving (.working h)) fun _ => .pure _
  have hthread : Made Acting Thread (thread (H := H)) :=
    .prim (.moving (.working (.sensing (.thread trivial))))
  cases s with
  | save | restore | endCall | call => cases hs
  | label | forceQueue | «return» | forever => exact .pure _
  | queue l => exact .bind hthread fun _ => .pure _
  | branch cond yes no => exact .bind (made_evalBool cond.frees_true).acting fun _ => .pure _
  | «repeat» times body =>
    refine .bind (made_evalNumber times.frees_true).acting fun _ => ?_
    split <;> exact .pure _
  | «while» cond body =>
    refine .bind (made_evalBool cond.frees_true).acting fun _ => ?_
    split <;> exact .pure _
  | motion op =>
    have hmoves : Made (Moving True True True) Unit (execMotion (H := H) op) :=
      made_execMotion op (fun e _ => e.frees_true) fun _ => trivial
    exact .bind (hmoves.mono fun _ _ => .moving) fun _ => .pure _
  | broadcast message wait =>
    exact .bind (made_evalText message.frees_true).acting fun _ => made_execEvent _ _
  | switchBackdrop backdrop wait =>
    exact .bind (made_eval backdrop.frees_true).acting fun _ =>
      .bind (.prim (.modifyMachine _)) fun _ => made_execEvent _ _
  | deleteClone =>
    refine .bind hthread fun _ => .bind (.prim (.ask _)) fun _ => ?_
    split <;> exact .pure _
  | stopAll => exact .bind (.prim (.modifyMachine _)) fun _ => .prim .ifSeated
  | setRegister | setVariable | changeVariable | list | looks | sound | pen | ask
  | collectAnswer | resetTimer | createClone | stopOthers => exact hplain rfl

theorem Blind.acting {R : Turn H → Turn H → Prop} (hR : Blind True R) {α : Type} {x : Act H α}
    (h : Made Acting α x) : Keeps R x := by
  refine h.keeps hR.refl hR.trans fun _ _ h => ?_
  cases h with
  | moving h => exact hR.moving h
  | ask | modifyMachine => exact fun t => hR.machine t _
  | ifSeated => exact .of_after hR.refl fun t => after_of_ok (ifSeated_apply t)

/-- **Only a few statements change more of a thread than its registers**: those that save, restore,
    call and return. -/
theorem keepsThread_exec {s : Stmt} (hs : s.isStacking = false) : KeepsThread (exec (H := H) s) :=
  blind_threadKin.acting (made_exec_acting hs)

/-- A statement that holds no others brings none into play. -/
theorem straight_exec {s : Stmt} (hs : s.isLeaf = true) : Straight (exec (H := H) s) := by
  have hplain {s : Stmt} (h : s.isPlain = true) : Straight (exec (H := H) s) := by
    obtain ⟨x, -, he⟩ := made_exec_plain (H := H) h
    rw [he]
    exact .bind fun _ => straight_next
  cases s with
  | branch | «repeat» | «while» | forever => cases hs
  | label => exact straight_next
  | forceQueue | «return» => exact straight_leave _
  | queue l => exact .bind fun _ => straight_leave _
  | save => exact .bind fun _ => straight_next
  | restore =>
    refine .bind fun t => ?_
    split
    · exact .bind fun _ => straight_next
    · intro _ _ _ h
      cases h
  | endCall =>
    refine .bind fun t => ?_
    split
    · exact .bind fun _ => straight_leave _
    · exact straight_next
  | call p args resume =>
    refine .bind fun t => ?_
    split
    · intro _ _ _ h
      cases h
    · exact .bind fun _ => .bind fun _ => .bind fun _ => straight_leave _
  | motion op => exact .bind fun _ => straight_next
  | broadcast message wait => exact .bind fun _ => straight_execEvent _ _
  | switchBackdrop backdrop wait => exact .bind fun _ => .bind fun _ => straight_execEvent _ _
  | deleteClone =>
    refine .bind fun _ => .bind fun _ => ?_
    split
    · exact straight_leave _
    · exact straight_next
  | stopAll => exact .bind fun _ => straight_ifSeated
  | setRegister | setVariable | changeVariable | list | looks | sound | pen | ask
  | collectAnswer | resetTimer | createClone | stopOthers => exact hplain rfl

/-! ## 4. Going on -/

theorem exec_label (l : Label) (t : Turn H) : exec (.label l) t = .ok (.onward []) t := rfl

theorem exec_save (t : Turn H) :
    exec .save t = .ok (.onward []) { t with thread := t.thread.save } := by
  simp only [exec, bind_apply, modifyThread_apply]
  rfl

theorem exec_restore (t : Turn H) :
    exec .restore t = match t.thread.restore? with
      | some thread => .ok (.onward []) { t with thread }
      | none => .error (.runtime .restoreWithoutSave) t := by
  simp only [exec, bind_apply, thread_apply]
  cases t.thread.restore? <;> rfl

theorem exec_endCall (t : Turn H) :
    exec .endCall t = match t.thread.endCall? with
      | some (l, thread) => .ok (.leave (.jump l)) { t with thread }
      | none => .ok (.onward []) t := by
  simp only [exec, bind_apply, thread_apply]
  cases t.thread.endCall? <;> rfl

theorem exec_branch (cond : Expr) (yes no : List Stmt) (t : Turn H) :
    exec (.branch cond yes no) t = match evalBool cond t with
      | .ok b t' => .ok (.onward (if b then yes else no)) t'
      | .error e t' => .error e t' := by
  simp only [exec, bind_apply]
  cases evalBool cond t <;> rfl

/-- The thread enters the procedure with the values of the arguments, and yields on the way only
    if it may. -/
theorem exec_call (p : ProcId) (args : List Expr) (resume : Label) (t : Turn H) :
    exec (.call p args resume) t = match t.program.procedure? p with
      | none => .error (.runtime (.noProcedure p)) t
      | some procedure =>
        match args.mapM eval t with
        | .error e t' => .error e t'
        | .ok values t' =>
          let atomic := procedure.warp || 0 < t'.thread.warp
          let deferred := !atomic && t'.machine.visual &&
            t'.thread.recentlyActive p recursionWindow
          .ok (.leave (if deferred then .yield procedure.entry else .jump procedure.entry))
            { t' with thread := t'.thread.call p resume values atomic } := by
  simp only [exec, execCall, bind_apply, get_apply]
  cases t.program.procedure? p with
  | none => rfl
  | some procedure =>
    simp only [bind_apply]
    cases args.mapM eval t <;> rfl

/-- A statement that ends its list lets no thread go on, unless it is the end of a procedure and
    the thread is in none. -/
theorem not_onward_of_isTerminator {s : Stmt} (hs : s.isTerminator = true) {t t' : Turn H}
    {code : List Stmt} (h : exec s t = .ok (.onward code) t') :
    s = .endCall ∧ t.thread.calls = [] := by
  cases s with
  | «return» | forceQueue => cases h
  | queue l =>
    obtain ⟨_, _, _, h⟩ := bind_eq_ok.mp h
    cases h
  | call p args resume =>
    rw [exec_call] at h
    split at h
    · cases h
    · split at h
      · cases h
      · cases h
  | endCall =>
    refine ⟨rfl, ?_⟩
    rw [exec_endCall] at h
    unfold Thread.endCall? at h
    cases hc : t.thread.calls with
    | nil => rfl
    | cons c rest =>
      rw [hc] at h
      cases h
  | _ => cases hs

/-- Of the registers no more than the ticket is changed. -/
def OnlyTicket (t t' : Turn H) : Prop :=
  ∃ k, t'.thread.registers = { t.thread.registers with ticket := k }

section OnlyTicket

omit [Host H]

variable {α : Type}

theorem OnlyTicket.trans (a b c : Turn H) (h : OnlyTicket a b) (h' : OnlyTicket b c) :
    OnlyTicket a c := by
  obtain ⟨k, hk⟩ := h
  obtain ⟨k', hk'⟩ := h'
  refine ⟨k', ?_⟩
  rw [hk', hk]

theorem SameRegisters.onlyTicket {t t' : Turn H} (h : SameRegisters t t') : OnlyTicket t t' :=
  ⟨t.thread.registers.ticket, h⟩

theorem onlyTicket_setTicket (k : Option Ticket) :
    Keeps OnlyTicket (modifyThread (H := H) fun t => t.setTicket k) :=
  fun _ => ⟨k, rfl⟩

theorem onlyTicket_of_eq {x : Act H α} (h : ∀ t, (x.after t).thread = t.thread) :
    Keeps OnlyTicket x :=
  fun t => SameRegisters.onlyTicket (congrArg Thread.registers (h t))

theorem Made.onlyTicket {x : Act H α} (h : Made (Sensing True) α x) : Keeps OnlyTicket x :=
  fun t => (h.sameRegisters t).onlyTicket

end OnlyTicket

/-- A request changes no register but the ticket, and neither does an answer. -/
theorem onlyTicket_exec {s : Stmt}
    (hs : (∃ e, s = .ask e) ∨ s = .collectAnswer ∨ ∃ e, s = .sound (.playUntilDone e)) :
    Keeps OnlyTicket (exec (H := H) s) := by
  have hask {α : Type} (f : H → α × H) : Keeps OnlyTicket (askHost f) :=
    onlyTicket_of_eq fun _ => rfl
  have hnext : Keeps OnlyTicket (next (H := H)) := onlyTicket_of_eq fun _ => rfl
  rcases hs with ⟨e, rfl⟩ | rfl | ⟨e, rfl⟩
  · exact .bind .trans (made_evalText e.frees_true).onlyTicket fun _ =>
      .bind .trans (hask _) fun _ => .bind .trans (onlyTicket_setTicket _) fun _ => hnext
  · refine .bind .trans (.bind .trans (onlyTicket_of_eq fun _ => rfl) fun _ => ?_) fun _ => hnext
    split
    · exact onlyTicket_of_eq fun _ => rfl
    · refine .bind .trans (onlyTicket_setTicket _) fun _ => .bind .trans (hask _) fun _ => ?_
      split <;> exact onlyTicket_of_eq fun _ => rfl
  · refine .bind .trans (.bind .trans ?_ fun k => ?_) fun _ => hnext
    · refine .bind .trans (made_eval e.frees_true).onlyTicket fun _ =>
        .bind .trans (fun t => (sameRegisters_sensing (r := True) .current t).onlyTicket) fun _ => ?_
      split
      · exact .bind .trans (onlyTicket_setTicket _) fun _ => onlyTicket_of_eq fun _ => rfl
      · exact .bind .trans (hask _) fun _ => onlyTicket_of_eq fun _ => rfl
    · split
      · exact onlyTicket_setTicket _
      · exact onlyTicket_of_eq fun _ => rfl

omit [Host H] in
/-- A sender that waits remembers the group of the event, any other nothing. -/
theorem registers_execEvent {wait : Bool} {send : Machine H → GroupId × Machine H}
    {t t' : Turn H} {c : Control} (h : execEvent wait send t = .ok c t') :
    (∃ g, t'.thread.registers = { t.thread.registers with group := g }) ∧
      (wait = false → t'.thread.registers = t.thread.registers) := by
  simp only [execEvent, bind_apply, ask_apply] at h
  cases wait with
  | true =>
    simp only [if_true, bind_apply, modifyThread_apply, ifSeated_apply] at h
    cases h
    exact ⟨⟨_, rfl⟩, nofun⟩
  | false =>
    simp only [Bool.false_eq_true, if_false, ifSeated_apply] at h
    cases h
    exact ⟨⟨t.thread.registers.group, rfl⟩, fun _ => rfl⟩

/-- **What a statement without others inside does to the registers of a thread that goes on.** -/
theorem writes_exec {s : Stmt} (hleaf : s.isLeaf = true) (hstack : s.isStacking = false)
    {t t' : Turn H} {code : List Stmt} (h : exec s t = .ok (.onward code) t') :
    s.Writes t.thread.registers t'.thread.registers := by
  have hquiet {x : Act H Unit} (hx : Made (Moving True False True) Unit x) {t t' : Turn H}
      {c : Control} (h : (x >>= fun _ => next) t = .ok c t') : Quiet t t' :=
    (Keeps.bind Quiet.trans hx.quiet fun _ _ _ => rfl).of_ok h
  have hplain (hs : s.isPlain = true) (hlight : s.isLight = true) : Quiet t t' := by
    obtain ⟨x, hx, he⟩ := made_exec (H := H) hs (fun e _ => e.frees_true) (.inl hlight)
      fun _ => trivial
    rw [he] at h
    exact hquiet hx.moving h
  cases s with
  | branch | «repeat» | «while» | forever => cases hleaf
  | save | restore | endCall | call => cases hstack
  | «return» | forceQueue => cases h
  | queue l =>
    obtain ⟨_, _, _, h⟩ := bind_eq_ok.mp h
    cases h
  | label l =>
    cases h
    rfl
  | setRegister r e =>
    obtain ⟨n, t₁, h₁, h⟩ := bind_eq_ok.mp h
    have hsame : SameRegisters t t₁ := (made_evalNumber e.frees_true).sameRegisters.of_ok h₁
    cases h
    exact ⟨n, congrArg (·.set r n) hsame⟩
  | broadcast message wait =>
    obtain ⟨text, t₁, h₁, h⟩ := bind_eq_ok.mp h
    have hsame : SameRegisters t t₁ := (made_evalText message.frees_true).sameRegisters.of_ok h₁
    obtain ⟨⟨g, hg⟩, hstill⟩ := registers_execEvent h
    cases wait with
    | false => exact fun _ => (hstill rfl).trans hsame
    | true => exact ⟨g, hg.trans (congrArg (fun rs : Registers => { rs with group := g }) hsame)⟩
  | switchBackdrop backdrop wait =>
    obtain ⟨v, t₁, h₁, h⟩ := bind_eq_ok.mp h
    have hsame : SameRegisters t t₁ := (made_eval backdrop.frees_true).sameRegisters.of_ok h₁
    obtain ⟨_, t₂, h₂, h⟩ := bind_eq_ok.mp h
    cases h₂
    obtain ⟨⟨g, hg⟩, hstill⟩ := registers_execEvent h
    cases wait with
    | false => exact fun _ => (hstill rfl).trans hsame
    | true => exact ⟨g, hg.trans (congrArg (fun rs : Registers => { rs with group := g }) hsame)⟩
  | deleteClone =>
    obtain ⟨_, t₁, h₁, h⟩ := bind_eq_ok.mp h
    cases h₁
    obtain ⟨deleted, t₂, h₂, h⟩ := bind_eq_ok.mp h
    injection h₂ with _ h₂
    split at h
    · cases h
    · injection h with _ h
      subst h h₂
      exact fun _ => rfl
  | stopAll =>
    obtain ⟨_, t₁, h₁, h⟩ := bind_eq_ok.mp h
    injection h₁ with _ h₁
    rw [ifSeated_apply] at h
    injection h with _ h
    subst h h₁
    exact fun _ => rfl
  | motion op =>
    have hmoves : Made (Moving True False True) Unit (execMotion (H := H) op) :=
      made_execMotion op (fun e _ => e.frees_true) fun _ => trivial
    exact hquiet hmoves h
  | sound op =>
    cases op with
    | playUntilDone e => exact (onlyTicket_exec (.inr (.inr ⟨e, rfl⟩))).of_ok h
    | play | stopAll | setVolume | changeVolume => exact hplain rfl rfl
  | ask e => exact (onlyTicket_exec (.inl ⟨e, rfl⟩)).of_ok h
  | collectAnswer => exact (onlyTicket_exec (.inr (.inl rfl))).of_ok h
  | setVariable | changeVariable | list | looks | pen | resetTimer | createClone | stopOthers =>
    exact hplain rfl rfl

/-- **A thread that goes on does so in one of a few ways.** -/
theorem exec_onward {s : Stmt} {t t' : Turn H} {code : List Stmt}
    (h : exec s t = .ok (.onward code) t') : Onward s t.thread code t'.thread := by
  by_cases hterm : s.isTerminator = true
  · obtain ⟨rfl, hc⟩ := not_onward_of_isTerminator hterm h
    rw [exec_endCall] at h
    unfold Thread.endCall? at h
    rw [hc] at h
    cases h
    exact .endCall hc
  have hstill : s.isTerminator = false := Bool.eq_false_iff.mpr hterm
  have hdone (hleaf : s.isLeaf = true) (hstack : s.isStacking = false) :
      Onward s t.thread code t'.thread := by
    rw [straight_exec hleaf _ _ _ h]
    refine .done hstill hstack (fun cond yes no heq => ?_) ((keepsThread_exec hstack).of_ok h)
      (writes_exec hleaf hstack h)
    rw [heq] at hleaf
    cases hleaf
  cases s with
  | save =>
    cases h
    exact .save _
  | restore =>
    rw [exec_restore] at h
    split at h
    · rename_i hr
      cases h
      exact .restore hr
    · cases h
  | branch cond yes no =>
    have hkin : Thread.Kin t.thread t'.thread := (keepsThread_exec rfl).of_ok h
    rw [exec_branch] at h
    split at h
    · rename_i b t₁ hb
      have hsame : SameRegisters t t₁ := (made_evalBool cond.frees_true).sameRegisters.of_ok hb
      cases h
      cases b with
      | true => exact .yes hkin hsame
      | false => exact .no hkin hsame
    · cases h
  | «repeat» times body =>
    have hkin : Thread.Kin t.thread t'.thread := (keepsThread_exec rfl).of_ok h
    obtain ⟨_, t₁, hn, h⟩ := bind_eq_ok.mp h
    have hsame : SameRegisters t t₁ := (made_evalNumber times.frees_true).sameRegisters.of_ok hn
    split at h
    · cases h
      exact .repeat _ hkin hsame
    · cases h
      exact .done rfl rfl nofun hkin hsame
  | «while» cond body =>
    have hkin : Thread.Kin t.thread t'.thread := (keepsThread_exec rfl).of_ok h
    obtain ⟨_, t₁, hb, h⟩ := bind_eq_ok.mp h
    have hsame : SameRegisters t t₁ := (made_evalBool cond.frees_true).sameRegisters.of_ok hb
    split at h
    · cases h
      exact .while hkin hsame
    · cases h
      exact .done rfl rfl nofun hkin hsame
  | forever body =>
    cases h
    exact .forever
  | «return» | queue | forceQueue | endCall | call => exact absurd rfl hterm
  | _ => exact hdone rfl rfl

/-! ## 5. Leaving -/

omit [Host H] in
theorem length_mapM {α β : Type} {f : α → Act H β} {as : List α} {bs : List β} {t t' : Turn H}
    (h : as.mapM f t = .ok bs t') : bs.length = as.length := by
  induction as generalizing bs t with
  | nil =>
    cases h
    rfl
  | cons a rest ih =>
    rw [List.mapM_cons] at h
    obtain ⟨b, t₁, -, h⟩ := bind_eq_ok.mp h
    obtain ⟨bs', t₂, hrest, h⟩ := bind_eq_ok.mp h
    cases h
    exact congrArg (· + 1) (ih hrest)

/-- Only a statement that ends its list makes a thread leave for a label. -/
theorem homeward_exec {s : Stmt} (hs : s.isTerminator = false) : Homeward (exec (H := H) s) := by
  have hplain {s : Stmt} (h : s.isPlain = true) : Homeward (exec (H := H) s) := by
    obtain ⟨x, -, he⟩ := made_exec_plain (H := H) h
    rw [he]
    exact .bind fun _ => homeward_onward _
  cases s with
  | queue | forceQueue | endCall | call | «return» => cases hs
  | label | forever => exact homeward_onward _
  | save | branch | motion => exact .bind fun _ => homeward_onward _
  | restore =>
    refine .bind fun _ => ?_
    split
    · exact .bind fun _ => homeward_onward _
    · intro _ _ _ h
      cases h
  | «repeat» times body =>
    refine .bind fun _ => ?_
    split <;> exact homeward_onward _
  | «while» cond body =>
    refine .bind fun _ => ?_
    split <;> exact homeward_onward _
  | broadcast message wait => exact .bind fun _ => homeward_execEvent _ _
  | switchBackdrop backdrop wait => exact .bind fun _ => .bind fun _ => homeward_execEvent _ _
  | deleteClone =>
    refine .bind fun _ => .bind fun _ => ?_
    split
    · exact homeward_leave rfl
    · exact homeward_onward _
  | stopAll => exact .bind fun _ => homeward_ifSeated
  | setRegister | setVariable | changeVariable | list | looks | sound | pen | ask
  | collectAnswer | resetTimer | createClone | stopOthers => exact hplain rfl

/-- **A thread that leaves for a label does so in one of a few ways.** -/
theorem exec_departs {s : Stmt} {t t' : Turn H} {e : Exit} {l : Label}
    (h : exec s t = .ok (.leave e) t') (hl : e.label? = some l) :
    Departs t.program s t.thread l t'.thread := by
  by_cases hterm : s.isTerminator = true
  case neg =>
    rw [homeward_exec (Bool.eq_false_iff.mpr hterm) _ _ _ h] at hl
    cases hl
  cases s with
  | queue k =>
    obtain ⟨thread, t₁, h₁, h⟩ := bind_eq_ok.mp h
    cases h₁
    cases h
    split at hl
    · cases hl
      exact .queue _
    · cases hl
      exact .queue _
  | forceQueue k =>
    cases h
    cases hl
    exact .forceQueue _
  | endCall =>
    rw [exec_endCall] at h
    split at h
    · rename_i k thread hend
      cases h
      cases hl
      exact .endCall hend
    · cases h
  | call id args resume =>
    rw [exec_call] at h
    split at h
    · cases h
    · rename_i procedure hp
      split at h
      · cases h
      · rename_i values t₁ hvalues
        have hmade : Made (Sensing True) _ (args.mapM (eval (H := H))) :=
          made_evalAll fun e _ => e.frees_true
        have hkin : Thread.Kin t.thread t₁.thread := hmade.keepsThread_sensing.of_ok hvalues
        have hsame : SameRegisters t t₁ := hmade.sameRegisters.of_ok hvalues
        have hlength := length_mapM hvalues
        cases h
        split at hl
        · cases hl
          exact .call hp hkin hsame hlength
        · cases hl
          exact .call hp hkin hsame hlength
  | «return» =>
    cases h
    cases hl
  | _ => cases hterm

end Act

/-! ## 6. Whose turn it is -/

namespace Act

variable {H : Type}

/-- The turn of the same seat, with the same program. -/
def SamePlace (t t' : Turn H) : Prop := t'.seat = t.seat ∧ t'.program = t.program

/-- The act leaves the turn where it is. -/
abbrev KeepsPlace {α : Type} (x : Act H α) : Prop := Keeps SamePlace x

theorem blind_samePlace : Blind True (SamePlace (H := H)) where
  refl _ := ⟨rfl, rfl⟩
  trans _ _ _ h h' := ⟨h'.1.trans h.1, h'.2.trans h.2⟩
  machine _ _ := ⟨rfl, rfl⟩
  known _ _ _ := ⟨rfl, rfl⟩
  registers _ _ _ := ⟨rfl, rfl⟩

section Place

variable {α : Type} {r w d : Prop}

theorem KeepsPlace.bind {β : Type} {x : Act H α} {f : α → Act H β} (hx : KeepsPlace x)
    (hf : ∀ a, KeepsPlace (f a)) : KeepsPlace (x >>= f) :=
  Keeps.bind blind_samePlace.trans hx hf

theorem keepsPlace_pure (a : α) : KeepsPlace (pure a : Act H α) := fun _ => ⟨rfl, rfl⟩

theorem keepsPlace_modifyThread (f : Thread → Thread) : KeepsPlace (modifyThread (H := H) f) :=
  fun _ => ⟨rfl, rfl⟩

variable [Host H]

theorem Made.keepsPlace_sensing {x : Act H α} (h : Made (Sensing r) α x) : KeepsPlace x :=
  blind_samePlace.made (h.working (w := True) (d := False)).moving

/-- **A statement leaves the turn where it is.** -/
theorem keepsPlace_exec (s : Stmt) : KeepsPlace (exec (H := H) s) := by
  by_cases hs : s.isStacking = false
  case pos => exact blind_samePlace.acting (made_exec_acting hs)
  have hthread : KeepsPlace (thread (H := H)) := fun _ => ⟨rfl, rfl⟩
  cases s with
  | save => exact .bind (keepsPlace_modifyThread _) fun _ => keepsPlace_pure _
  | restore =>
    refine .bind hthread fun _ => ?_
    split
    · exact .bind (keepsPlace_modifyThread _) fun _ => keepsPlace_pure _
    · exact fun _ => ⟨rfl, rfl⟩
  | endCall =>
    refine .bind hthread fun _ => ?_
    split
    · exact .bind (keepsPlace_modifyThread _) fun _ => keepsPlace_pure _
    · exact keepsPlace_pure _
  | call p args resume =>
    refine .bind (fun _ => ⟨rfl, rfl⟩) fun _ => ?_
    split
    · exact fun _ => ⟨rfl, rfl⟩
    · exact .bind (made_evalAll fun e _ => e.frees_true).keepsPlace_sensing fun _ =>
        .bind (fun _ => ⟨rfl, rfl⟩) fun _ =>
          .bind (keepsPlace_modifyThread _) fun _ => keepsPlace_pure _
  | _ => exact absurd rfl hs

end Place

end Act

end BlockScript
