import BlockScript.Proofs.Loops
import BlockScript.Proofs.Successions

/-!
# Registers hold numbers

Whatever is noted in a register was converted to a number before, and what is not a number counts as
zero then. So no register ever holds anything else, neither those of a thread at work nor those of a
thread that waits, nor the copies that were saved or belong to callers.

* `Registers.Numbered`, `Thread.Numbered`: all registers of a thread hold numbers;
* `Act.sameNumbers_exec`: only one kind of statement writes numbers into registers;
* `Act.numbered_exec`: a statement leaves numbers in them;
* `Regime.numbered`, `World.Arises.numbered`: so it is in every state.
-/

namespace BlockScript

/-! ## 1. Registers and their copies -/

/-- The registers hold numbers. -/
def Registers.Numbered (rs : Registers) : Prop := ∀ r, (rs.get r).isNaN = false

/-- The thread has numbers in its registers, in the copies that it saved, and in the registers of
    its callers. -/
structure Thread.Numbered (t : Thread) : Prop where
  registers : t.registers.Numbered
  saved : ∀ rs ∈ t.saved, rs.Numbered
  calls : ∀ c ∈ t.calls, c.caller.Numbered ∧ ∀ rs ∈ c.saved, rs.Numbered

theorem Registers.numbered_default : ({} : Registers).Numbered := by
  intro r
  cases r <;> decide +kernel

theorem Registers.Numbered.set {rs : Registers} (h : rs.Numbered) (r : Register) {x : Float}
    (hx : x.isNaN = false) : (rs.set r x).Numbered := by
  intro q
  rw [Registers.get_set]
  split
  · exact hx
  · exact h q

namespace Thread

variable {t t' : Thread}

theorem Numbered.saveStack (h : t.Numbered) : ∀ rs ∈ t.saveStack, rs.Numbered := by
  unfold Thread.saveStack
  split
  · exact h.saved
  · rename_i c rest hcalls
    exact (h.calls c (hcalls ▸ List.mem_cons_self)).2

theorem Numbered.withSaveStack (h : t.Numbered) {saved : List Registers}
    (hsaved : ∀ rs ∈ saved, rs.Numbered) : (t.withSaveStack saved).Numbered := by
  obtain ⟨hregisters, houter, hcalls⟩ := h
  unfold Thread.withSaveStack
  split
  · exact ⟨hregisters, hsaved, hcalls⟩
  · rename_i c rest heq
    rw [heq] at hcalls
    obtain ⟨hc, hrest⟩ := List.forall_mem_cons.mp hcalls
    exact ⟨hregisters, houter, List.forall_mem_cons.mpr ⟨⟨hc.1, hsaved⟩, hrest⟩⟩

theorem Numbered.save (h : t.Numbered) : t.save.Numbered :=
  h.withSaveStack (List.forall_mem_cons.mpr ⟨h.registers, h.saveStack⟩)

theorem Numbered.restore? (h : t.Numbered) (hr : t.restore? = some t') : t'.Numbered := by
  obtain ⟨rs, rest, hstack, rfl⟩ := Thread.exists_of_restore? hr
  obtain ⟨hrs, hrest⟩ := List.forall_mem_cons.mp (hstack ▸ h.saveStack)
  exact ⟨hrs, (h.withSaveStack hrest).saved, (h.withSaveStack hrest).calls⟩

theorem Numbered.endCall? (h : t.Numbered) {l : Label} (he : t.endCall? = some (l, t')) :
    t'.Numbered := by
  obtain ⟨c, rest, hcalls, rfl, rfl⟩ := Thread.exists_of_endCall? he
  obtain ⟨hc, hrest⟩ := List.forall_mem_cons.mp (hcalls ▸ h.calls)
  exact ⟨hc.1, h.saved, hrest⟩

/-- A procedure starts with fresh registers, and keeps those of its caller. -/
theorem Numbered.call (h : t.Numbered) (p : ProcId) (resume : Label) (args : List Value)
    (warp : Bool) : (t.call p resume args warp).Numbered := by
  refine ⟨Registers.numbered_default, h.saved, List.forall_mem_cons.mpr ⟨⟨h.registers, ?_⟩, h.calls⟩⟩
  intro rs hrs
  cases hrs

/-- What is known about arguments changes no register. -/
theorem Numbered.kin (h : t.Numbered) (hkin : Thread.Kin t t') (hrs : t'.registers.Numbered) :
    t'.Numbered := by
  refine ⟨hrs, hkin.saved ▸ h.saved, ?_⟩
  have hall := hkin.calls
  generalize t'.calls = calls' at hall
  have hcalls := h.calls
  generalize t.calls = calls at hall hcalls
  induction hall with
  | nil => exact hcalls
  | @cons c c' _ _ hc _ ih =>
    obtain ⟨hfirst, hrest⟩ := List.forall_mem_cons.mp hcalls
    refine List.forall_mem_cons.mpr ⟨?_, ih hrest⟩
    rw [hc.caller, hc.saved]
    exact hfirst

end Thread

/-! ## 2. Statements -/

namespace Act

variable {H α : Type}

/-- The numbers in the registers are as before. -/
def SameNumbers (t t' : Turn H) : Prop :=
  ∀ r, t'.thread.registers.get r = t.thread.registers.get r

theorem SameNumbers.trans (a b c : Turn H) (h : SameNumbers a b) (h' : SameNumbers b c) :
    SameNumbers a c :=
  fun r => (h' r).trans (h r)

theorem SameRegisters.numbers {t t' : Turn H} (h : SameRegisters t t') : SameNumbers t t' :=
  fun r => congrArg (fun rs : Registers => rs.get r) h

theorem sameNumbers_of_after {x : Act H α} (h : ∀ t, (x.after t).thread = t.thread) :
    Keeps SameNumbers x :=
  fun t => SameRegisters.numbers (congrArg Thread.registers (h t))

theorem sameNumbers_execEvent (wait : Bool) (send : Machine H → GroupId × Machine H) :
    Keeps SameNumbers (execEvent wait send) := by
  have hseated : Keeps SameNumbers (ifSeated (H := H)) :=
    sameNumbers_of_after fun t => congrArg Turn.thread (after_of_ok (ifSeated_apply t))
  refine .bind .trans (fun _ _ => rfl) fun group => ?_
  dsimp only
  split
  · refine .bind .trans (fun t r => ?_) fun _ => hseated
    cases r <;> rfl
  · exact hseated

theorem OnlyTicket.numbers {t t' : Turn H} (h : OnlyTicket t t') : SameNumbers t t' := by
  obtain ⟨k, hk⟩ := h
  intro r
  rw [hk]
  cases r <;> rfl

variable {r d : Prop}

theorem Made.sameNumbers_sensing {x : Act H α} (h : Made (Sensing r) α x) : Keeps SameNumbers x :=
  fun t => (h.sameRegisters t).numbers

variable [Host H]

omit [Host H] in
theorem blind_sameNumbers : Blind False (SameNumbers (H := H)) where
  refl _ _ := rfl
  trans := SameNumbers.trans
  machine _ _ _ := rfl
  known _ _ _ _ := rfl
  registers _ f h r := by
    -- only the request is forgotten
    cases h.resolve_left id
    cases r <;> rfl

theorem Made.sameNumbers {x : Act H α} (h : Made (Moving r False d) α x) : Keeps SameNumbers x :=
  blind_sameNumbers.made h

/-- **Only one kind of statement writes numbers into registers**, apart from those that save and
    restore, call and return. -/
theorem sameNumbers_exec {s : Stmt} (hstack : s.isStacking = false)
    (hset : ∀ r e, s ≠ .setRegister r e) : Keeps SameNumbers (exec (H := H) s) := by
  have hnext {c : Control} : Keeps SameNumbers (pure c : Act H Control) := fun _ _ => rfl
  have hlight {s : Stmt} (hs : s.isPlain = true) (hlight : s.isLight = true) :
      Keeps SameNumbers (exec (H := H) s) := by
    obtain ⟨x, hx, he⟩ := made_exec (H := H) (r := True) (w := False) (d := True) hs
      (fun e _ => e.frees_true) (.inl hlight) fun _ => trivial
    rw [he]
    exact .bind .trans hx.moving.sameNumbers fun _ => hnext
  cases s with
  | save | restore | endCall | call => cases hstack
  | setRegister r e => exact absurd rfl (hset r e)
  | label | forceQueue | «return» | forever => exact hnext
  | queue l => exact .bind .trans (fun _ _ => rfl) fun _ => hnext
  | branch cond yes no =>
    exact .bind .trans (made_evalBool cond.frees_true).sameNumbers_sensing fun _ => hnext
  | «repeat» times body =>
    refine .bind .trans (made_evalNumber times.frees_true).sameNumbers_sensing fun _ => ?_
    split <;> exact hnext
  | «while» cond body =>
    refine .bind .trans (made_evalBool cond.frees_true).sameNumbers_sensing fun _ => ?_
    split <;> exact hnext
  | motion op =>
    have hmoves : Made (Moving True False True) Unit (execMotion (H := H) op) :=
      made_execMotion op (fun e _ => e.frees_true) fun _ => trivial
    exact .bind .trans hmoves.sameNumbers fun _ => hnext
  | broadcast message wait =>
    exact .bind .trans (made_evalText message.frees_true).sameNumbers_sensing fun _ =>
      sameNumbers_execEvent _ _
  | switchBackdrop backdrop wait =>
    exact .bind .trans (made_eval backdrop.frees_true).sameNumbers_sensing fun _ =>
      .bind .trans (fun _ _ => rfl) fun _ => sameNumbers_execEvent _ _
  | deleteClone =>
    refine .bind .trans (fun _ _ => rfl) fun _ => .bind .trans (fun _ _ => rfl) fun _ => ?_
    split <;> exact hnext
  | stopAll =>
    exact .bind .trans (fun _ _ => rfl) fun _ =>
      sameNumbers_of_after fun t => congrArg Turn.thread (after_of_ok (ifSeated_apply t))
  | ask e => exact fun t => (onlyTicket_exec (.inl ⟨e, rfl⟩) t).numbers
  | collectAnswer => exact fun t => (onlyTicket_exec (.inr (.inl rfl)) t).numbers
  | sound op =>
    cases op with
    | playUntilDone e => exact fun t => (onlyTicket_exec (.inr (.inr ⟨e, rfl⟩)) t).numbers
    | play | stopAll | setVolume | changeVolume => exact hlight rfl rfl
  | setVariable | changeVariable | list | looks | pen | resetTimer | createClone | stopOthers =>
    exact hlight rfl rfl

/-- **A statement leaves numbers in the registers.** -/
theorem numbered_exec {s : Stmt} {t t' : Turn H} {c : Control} (h : exec s t = .ok c t')
    (ht : t.thread.Numbered) : t'.thread.Numbered := by
  have hregisters {t t' : Turn H} (hsame : SameNumbers t t') (ht : t.thread.Numbered) :
      t'.thread.registers.Numbered := fun r => by
    rw [hsame r]
    exact ht.registers r
  have hplain (hstack : s.isStacking = false) (hset : ∀ r e, s ≠ .setRegister r e) :
      t'.thread.Numbered :=
    ht.kin ((keepsThread_exec hstack).of_ok h) (hregisters ((sameNumbers_exec hstack hset).of_ok h) ht)
  cases s with
  | setRegister r e =>
    have hkin := (keepsThread_exec rfl).of_ok h
    obtain ⟨x, t₁, hx, h⟩ := bind_eq_ok.mp h
    have hsame := (made_evalNumber e.frees_true).sameNumbers_sensing.of_ok hx
    cases h
    exact ht.kin hkin (Registers.Numbered.set (hregisters hsame ht) r (isNaN_of_evalNumber hx))
  | save =>
    cases h
    exact ht.save
  | restore =>
    rw [exec_restore] at h
    split at h
    · rename_i hr
      cases h
      exact ht.restore? hr
    · cases h
  | endCall =>
    rw [exec_endCall] at h
    split at h
    · rename_i he
      cases h
      exact ht.endCall? he
    · cases h
      exact ht
  | call p args resume =>
    rw [exec_call] at h
    split at h
    · cases h
    · split at h
      · cases h
      · rename_i values t₁ hvalues
        have hmade : Made (Sensing True) _ (args.mapM (eval (H := H))) :=
          made_evalAll fun e _ => e.frees_true
        cases h
        refine Thread.Numbered.call (ht.kin (hmade.keepsThread_sensing.of_ok hvalues) ?_) _ _ _ _
        exact hregisters (hmade.sameNumbers_sensing.of_ok hvalues) ht
  | _ =>
    refine hplain rfl fun r e heq => ?_
    cases heq

end Act

/-! ## 3. Every state -/

/-- In every state, the registers of threads hold numbers. -/
def Regime.numbered (H : Type) [Host H] (R : Rules) : Regime H R where
  program _ := True
  thread _ t := t.Numbered
  start _ _ _ _ := by
    refine ⟨Registers.numbered_default, fun rs hrs => ?_, fun c hc => ?_⟩
    · cases hrs
    · cases hc
  ready ht _ := ⟨ht.registers, ht.saved, ht.calls⟩
  working _ t _ _ := t.Numbered
  enter _ ht _ := ht
  onward _ ht hexec := Act.numbered_exec hexec ht
  jump _ ht hexec _ := Act.numbered_exec hexec ht
  yield _ ht hexec :=
    have ht' := Act.numbered_exec hexec ht
    ⟨ht'.registers, ht'.saved, ht'.calls⟩

namespace World

variable {H : Type} [Host H] {m : Machine H} {w : World H}

/-- **In every state the registers hold numbers**, whatever the programs are. -/
theorem Arises.numbered {p : Project} {programs : List Program} {o : Options} {host : H}
    {s : Surroundings} (hload : Machine.load p programs o host s = .ok m) (h : Arises m w) :
    w.Obeys (Regime.numbered H .cut) :=
  h.obeys (Machine.settled_load (fun _ _ => trivial) hload)

end World

end BlockScript
