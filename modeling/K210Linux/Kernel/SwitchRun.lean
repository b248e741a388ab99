import K210Linux.Kernel.SwitchThreads

/-! Every run of the processor is one of the threads. -/

namespace K210Linux.Kernel.Switching

open K210Linux.Lib.Riscv

variable {sym : SwitchSymbols} {s s' : Processor} {t : Threads} {old new u : Thread} {c : Context} {i : Nat}

section Slots

variable {α β : Type} {f : Nat → Option α} {g : Nat → Option β} {j : Nat}

/-- What a table has in another slot than the one that is set. -/
theorem update_elsewhere {a : Option α} {x : α} (away : i ≠ j) (here : Function.update f j a i = some x) :
    f i = some x := (Function.update_of_ne away ..).symm.trans here

/-- The same slot of two tables is taken or freed. -/
theorem slots_update {a : Option α} {b : Option β} (slots : ∀ i, f i = none ↔ g i = none) (same : a = none ↔ b = none)
    (i : Nat) : Function.update f j a i = none ↔ Function.update g j b i = none := by
  by_cases here : i = j
  · subst here
    simpa only [Function.update_self] using same
  · simpa only [Function.update_of_ne here] using slots i

/-- A slot that is taken is set again. -/
theorem slots_live {x : α} (slots : ∀ i, f i = none ↔ g i = none) (live : g j ≠ none) (i : Nat) :
    Function.update f j (some x) i = none ↔ g i = none := by
  have same : some x = none ↔ g j = none := by simp [live]
  simpa only [Function.update_eq_self] using slots_update (j := j) slots same i

end Slots

theorem Layout.without (layout : Layout sym s.task) (nr : Nat) : Layout sym (Function.update s.task nr none) := by
  have before : ∀ i u, Function.update s.task nr none i = some u → s.task i = some u := by
    intro i u here
    rw [Function.update_apply] at here
    split at here
    · cases here
    · exact here
  constructor
  · exact fun i u here => layout.aligned i u (before i u here)
  · exact fun i u here => layout.own i u (before i u here)
  · exact fun i j u v other here there => layout.apart i j u v other (before i u here) (before j v there)
  · exact fun i u here => layout.symbols i u (before i u here)

/-- A parked thread depends on its own memory only. -/
theorem Parked.kept (parked : Parked s i u c) (memory : ∀ a, u.Owns a → s'.machine.mem a = s.machine.mem a)
    (waiting : s'.oldtrapinfo i = s.oldtrapinfo i) : Parked s' i u c := by
  rcases parked with ⟨tss, saved, pc, stack, trapInfo⟩
  have frame : ∀ j < 64, s'.machine.mem (slot (c.reg .sp + -registerFrame) j) =
      s.machine.mem (slot (c.reg .sp + -registerFrame) j) := fun j bound => memory _ (.inl (stack.frame j bound))
  refine ⟨?_, ⟨?_, ?_⟩, pc, stack, ?_⟩
  · rw [memory _ (.inr (u.tss_slot 2 (by decide))), tss]
  · intro r other
    rw [frame _ (by have := r.number_lt; omega), saved.word r other]
  · intro j
    rw [frame _ (by omega), saved.float j]
  · rwa [waiting]

theorem Shows.congr (shows : Shows s c) (pc : s'.pc = s.pc) (reg : s'.machine.reg = s.machine.reg)
    (freg : s'.machine.freg = s.machine.freg) (trapInfo : s'.trapInfo = s.trapInfo) : Shows s' c := by
  rcases shows with ⟨pc', reg', freg', trapInfo'⟩
  exact ⟨by rw [pc, pc'], by rw [reg, reg'], by rw [freg, freg'],
    fun info known => trapInfo.trans (trapInfo' info known)⟩

section Steps

theorem work_realised {pc : Word} {machine : FloatMachine} {trapInfo : TrapInfoT} {userKernel : Bool}
    (realises : Realises sym s t) (allowed : (SwitchEvent.work pc machine trapInfo userKernel).Allowed sym s) :
    Realises sym { s with pc, machine, trapInfo, userKernel } { t with
      context := Function.update t.context t.current (some ⟨pc, machine.reg, machine.freg, some trapInfo⟩) } := by
  rcases realises with ⟨layout, current, slots, ⟨c, running, -⟩, parked, directory, kernelStack⟩
  refine ⟨layout, current, ?_, ⟨_, Function.update_self .., rfl, rfl, rfl, ?_⟩, ?_, directory, ?_⟩
  · exact slots_live slots ((slots t.current).not.mp (running ▸ Option.some_ne_none c))
  · exact fun info same => Option.some.inj same
  · intro i u c other there context
    have before := update_elsewhere (current ▸ other) context
    exact (parked i u c other there before).kept (allowed.1 i u other there) rfl
  · intro u here
    exact allowed.2.trans (kernelStack u here)

theorem release_realised {nr : Nat} (realises : Realises sym s t) (other : nr ≠ s.current) :
    Realises sym { s with task := Function.update s.task nr none }
      { t with context := Function.update t.context nr none } := by
  rcases realises with ⟨layout, current, slots, ⟨c, running, shows⟩, parked, directory, kernelStack⟩
  refine ⟨layout.without nr, current, ?_, ⟨c, ?_, shows.congr rfl rfl rfl rfl⟩, ?_,
    fun u here => directory u (update_elsewhere other.symm here),
    fun u here => kernelStack u (update_elsewhere other.symm here)⟩
  · exact slots_update slots (by simp)
  · rw [← running]
    exact Function.update_of_ne (current ▸ other.symm) ..
  · intro i u c away there context
    have kept : i ≠ nr := by
      rintro rfl
      simp at there
    exact (parked i u c away (update_elsewhere kept there) (update_elsewhere kept context)).kept (fun _ _ => rfl) rfl

/-- What `copy_process` changes. -/
structure Forked (sym : SwitchSymbols) (s : Processor) (nr : Nat) (parent child : Thread) (s' : Processor) : Prop where
  mem : s'.machine.mem = childMemory sym s parent child
  reg : s'.machine.reg = s.machine.reg
  freg : s'.machine.freg = s.machine.freg
  pc : s'.pc = s.pc
  trapInfo : s'.trapInfo = s.trapInfo
  pageDirTable : s'.pageDirTable = s.pageDirTable
  current : s'.current = s.current
  task : s'.task = Function.update s.task nr (some child)
  oldtrapinfo : s'.oldtrapinfo = Function.update s.oldtrapinfo nr none

theorem copyProcess_forked {nr : Nat} {child : Thread} (forked : copyProcess sym s nr child = some s') :
    ∃ parent, s.task s.current = some parent ∧ Forked sym s nr parent child s' := by
  rcases Option.bind_eq_some_iff.mp forked with ⟨parent, here, result⟩
  cases result
  exact ⟨parent, here, rfl, rfl, rfl, rfl, rfl, rfl, rfl, rfl, rfl⟩

/-- The child waits with the frame that its parent made. -/
theorem Forked.child {nr : Nat} {parent child : Thread} (forked : Forked sym s nr parent child s')
    (fresh : Fresh s child) : Parked s' nr child (childContext sym s child) := by
  have top : (childContext sym s child).reg .sp = child.kernelStack := by
    simp [childContext]
  constructor
  · rw [top, forked.mem]
    exact childMemory_tss fresh
  · rw [top, forked.mem]
    exact childMemory_saved fresh
  · simp [childContext]
  · rw [top]
    exact child_onStack fresh.aligned
  · intro info none
    cases none

theorem fork_realised {nr : Nat} {child : Thread} (realises : Realises sym s t)
    (allowed : (SwitchEvent.fork nr child).Allowed sym s) (done : copyProcess sym s nr child = some s') :
    Realises sym s' { t with context := Function.update t.context nr (some (childContext sym s child)) } := by
  rcases realises with ⟨layout, current, slots, ⟨c, running, shows⟩, parked, directory, kernelStack⟩
  rcases allowed with ⟨free, layout', trap⟩
  rcases copyProcess_forked done with ⟨parent, here, forked⟩
  have new : Function.update s.task nr (some child) nr = some child := Function.update_self ..
  have other : s.current ≠ nr := by
    intro same
    rw [same, free] at here
    cases here
  have before : ∀ {i}, i ≠ nr → Function.update s.task nr (some child) i = s.task i :=
    fun away => Function.update_of_ne away ..
  have fresh : Fresh s child := by
    refine ⟨(layout'.aligned nr child new).2, layout'.own nr child new, ?_⟩
    intro i bound
    have apart := layout'.apart s.current nr parent child other ((before other).trans here) new
    rcases trap parent here i bound with ⟨regs, fregs⟩
    exact ⟨apart _ (.inl regs), apart _ (.inl fregs)⟩
  have elsewhere : ∀ a, ¬ child.Owns a → s'.machine.mem a = s.machine.mem a := by
    intro a outside
    rw [forked.mem, childMemory_other fresh.aligned outside]
  refine ⟨forked.task ▸ layout', forked.current.trans current, ?_, ⟨c, ?_, ?_⟩, ?_, ?_, ?_⟩
  · rw [forked.task]
    exact slots_update slots (by simp)
  · rw [← running]
    exact Function.update_of_ne (current ▸ other) ..
  · exact shows.congr forked.pc forked.reg forked.freg forked.trapInfo
  · intro i u c away there context
    rw [forked.task] at there
    rw [forked.current] at away
    by_cases same : i = nr
    · subst same
      cases new.symm.trans there
      cases (Function.update_self ..).symm.trans context
      exact forked.child fresh
    · apply (parked i u c away (update_elsewhere same there) (update_elsewhere same context)).kept
      · intro a owns
        exact elsewhere a (layout'.apart i nr u child same there new a owns)
      · rw [forked.oldtrapinfo, Function.update_of_ne same]
  · intro u there
    rw [forked.task, forked.current, before other] at there
    rw [forked.pageDirTable, directory u there]
  · intro u there
    rw [forked.task, forked.current, before other] at there
    rw [← kernelStack u there]
    exact elsewhere _ (layout'.symbols nr child new).2

end Steps

section Switch

variable {taskid fuel : Nat}

theorem calling_reg (sym : SwitchSymbols) (s : Processor) (old new : Thread) : (calling sym s old new).reg =
    Function.update (Function.update s.machine.reg .a0 old.tss) .a1 new.tss := rfl

theorem calling_mem (sym : SwitchSymbols) (s : Processor) (old new : Thread) {a : Word} (epc : a ≠ slot old.tss epcSlot)
    (noOld : a ≠ sym.oldKernelStack) (noCur : a ≠ sym.curKernelStack) :
    (calling sym s old new).mem a = s.machine.mem a := by
  simp only [calling, FloatMachine.set_mem]
  rw [FloatMachine.write_other noCur, FloatMachine.write_other noOld, FloatMachine.write_other epc]

theorem calling_cur (sym : SwitchSymbols) (s : Processor) (old new : Thread) :
    (calling sym s old new).mem sym.curKernelStack = new.kernelStack := by
  simp only [calling, FloatMachine.set_mem, FloatMachine.write_same]

theorem calling_old (sym : SwitchSymbols) (s : Processor) (old new : Thread)
    (outside : sym.curKernelStack ≠ slot old.tss epcSlot) :
    (calling sym s old new).mem sym.oldKernelStack = s.machine.mem sym.curKernelStack := by
  simp only [calling, FloatMachine.set_mem]
  rw [FloatMachine.write_other sym.different, FloatMachine.write_same, FloatMachine.write_other outside]

/-- The registers that `switch_to_tss` is called with. -/
theorem calling_args (sym : SwitchSymbols) (s : Processor) (old new : Thread) :
    (calling sym s old new).reg .sp = s.machine.reg .sp ∧ (calling sym s old new).reg .a0 = old.tss ∧
      (calling sym s old new).reg .a1 = new.tss := by
  simp [calling_reg]

theorem calling_frame (sym : SwitchSymbols) (s : Processor) (old new : Thread) :
    savedFrame (calling sym s old new) = s.machine.reg .sp + -registerFrame := by
  unfold savedFrame
  rw [(calling_args sym s old new).1]

/-- The call leaves the memory of the other tasks alone. -/
theorem calling_owned (layout : Layout sym s.task) (here : s.task s.current = some old) (new : Thread)
    (other : i ≠ s.current) (there : s.task i = some u) {a : Word} (owns : u.Owns a) :
    (calling sym s old new).mem a = s.machine.mem a := by
  have symbols := layout.symbols i u there
  apply calling_mem
  · exact layout.ne_of_owns other there here owns (.inr (old.tss_slot epcSlot (le_refl _)))
  · intro same
    exact symbols.1 (same ▸ owns)
  · intro same
    exact symbols.2 (same ▸ owns)

theorem switch_entry (layout : Layout sym s.task) (here : s.task s.current = some old)
    (there : s.task taskid = some new) (other : taskid ≠ s.current) (on : OnStack old (s.machine.reg .sp))
    (parked : Parked s taskid new c) :
    SwitchEntry sym.oldKernelStack (calling sym s old new) := by
  rcases calling_args sym s old new with ⟨sp, a0, a1⟩
  have frame := calling_frame sym s old new
  have symbols := layout.symbols s.current old here
  have tss : new.Owns (slot new.tss 2) := .inr (new.tss_slot 2 (by decide))
  constructor
  · rw [sp]
    exact on.aligned
  · rw [a0]
    exact (layout.aligned _ _ here).1
  · rw [a1]
    exact (layout.aligned _ _ there).1
  · exact sym.aligned
  · intro i low j high
    rw [frame, a0]
    exact layout.stack_ne_tss here (on.frame i low) (old.tss_slot j high.le)
  · intro j high
    rw [frame, a0]
    exact layout.stack_ne_tss here on.belowFrame (old.tss_slot j high.le)
  · intro i low
    rw [frame, a0]
    constructor
    · intro same
      apply symbols.1
      rw [same]
      exact .inl (on.frame i low)
    · intro same
      apply symbols.1
      rw [same]
      exact .inr (old.tss_slot i low.le)
  · intro i low
    rw [frame, a0, a1]
    exact ⟨layout.ne_of_owns other there here tss (.inl (on.frame i low)),
      layout.ne_of_owns other there here tss (.inr (old.tss_slot i low.le))⟩
  · rw [frame, a1]
    exact layout.ne_of_owns other there here tss (.inl on.belowFrame)
  · rw [a1, calling_owned layout here new other there tss, parked.tss]
    exact parked.stack.aligned.add (by decide)

/-- What `switch_to_tss` leaves of the memory of a task that does not take part. -/
theorem switched_owned {r : Word × FloatMachine} (switched : Switched (calling sym s old new) r)
    (layout : Layout sym s.task) (here : s.task s.current = some old) (on : OnStack old (s.machine.reg .sp))
    (other : i ≠ s.current) (there : s.task i = some u) {a : Word} (owns : u.Owns a) : r.2.mem a = s.machine.mem a := by
  rcases calling_args sym s old new with ⟨sp, a0, a1⟩
  rw [← calling_owned layout here new other there owns]
  apply switched.others
  · intro j bound
    rw [calling_frame]
    exact layout.ne_of_owns other there here owns (.inl (on.frame j bound))
  · intro j bound
    rw [a0]
    exact layout.ne_of_owns other there here owns (.inr (old.tss_slot j bound.le))
  · rw [calling_frame]
    exact layout.ne_of_owns other there here owns (.inl on.belowFrame)

/-- What `switch_to` changes. -/
structure SwitchedTo (sym : SwitchSymbols) (s : Processor) (taskid : Nat) (new : Thread) (r : Word × FloatMachine)
    (s' : Processor) : Prop where
  pc : s'.pc = r.1
  machine : s'.machine = r.2
  trapInfo : s'.trapInfo = (s.oldtrapinfo taskid).getD s.trapInfo
  pageDirTable : s'.pageDirTable = new.pageDirTable
  current : s'.current = taskid
  task : s'.task = s.task
  oldtrapinfo : s'.oldtrapinfo = Function.update (Function.update s.oldtrapinfo s.current (some s.trapInfo)) taskid none

theorem switchTo_switched (here : s.task s.current = some old) (there : s.task taskid = some new)
    (other : taskid ≠ s.current) (done : switchTo sym s taskid fuel = some s') :
    ∃ r, runCode (switchToTss sym.oldKernelStack) fuel 0 (calling sym s old new) = some r ∧
      SwitchedTo sym s taskid new r s' := by
  simp only [switchTo, here, there, Option.bind_eq_bind, Option.bind_some, if_neg other.symm] at done
  rcases Option.bind_eq_some_iff.mp done with ⟨r, runs, result⟩
  cases result
  exact ⟨r, runs, rfl, rfl, rfl, rfl, rfl, rfl, rfl⟩

theorem frame_back (a : Word) : a + -registerFrame + registerFrame = a := by
  have size : registerFrame = 512 := rfl
  rw [size]
  bv_omega

/-- The task that goes on has the registers that it had. -/
theorem SwitchedTo.shows {r : Word × FloatMachine} (done : SwitchedTo sym s taskid new r s')
    (switched : Switched (calling sym s old new) r) (layout : Layout sym s.task) (here : s.task s.current = some old)
    (there : s.task taskid = some new) (other : taskid ≠ s.current) (on : OnStack old (s.machine.reg .sp))
    (parked : Parked s taskid new c) : Shows s' c := by
  have kept := fun a (owns : new.Owns a) => switched_owned switched layout here on other there owns
  have frame : (calling sym s old new).mem (slot ((calling sym s old new).reg .a1) 2) = c.reg .sp + -registerFrame := by
    rw [(calling_args sym s old new).2.2, calling_owned layout here new other there (.inr (new.tss_slot 2 (by decide))),
      parked.tss]
  have loaded := switched.loaded
  have stack := switched.stack
  rw [frame] at loaded stack
  have reg : c.reg = r.2.reg := by
    funext q
    by_cases pointer : q = .sp
    · rw [pointer, stack, frame_back]
    · have bound : q.number < 64 := by
        have := q.number_lt
        omega
      rw [← loaded.word q pointer, kept _ (.inl (parked.stack.frame _ bound)), parked.saved.word q pointer]
  constructor
  · rw [done.pc, switched.returns, parked.pc, reg]
  · rw [done.machine, reg]
  · rw [done.machine]
    funext j
    rw [← loaded.float j, kept _ (.inl (parked.stack.frame _ (by omega))), parked.saved.float j]
  · intro info known
    rw [done.trapInfo, parked.trapInfo info known, Option.getD_some]

/-- The task that calls `switch_to` waits there with its registers. -/
theorem SwitchedTo.parks {r : Word × FloatMachine} (done : SwitchedTo sym s taskid new r s')
    (switched : Switched (calling sym s old new) r) (other : taskid ≠ s.current) (on : OnStack old (s.machine.reg .sp))
    (shows : Shows s c) : Parked s' s.current old (c.calls old.tss new.tss) := by
  have reg : (c.calls old.tss new.tss).reg = (calling sym s old new).reg := by
    rw [calling_reg, Context.calls, shows.reg]
  have freg : (c.calls old.tss new.tss).freg = (calling sym s old new).freg := shows.freg
  have sp : (calling sym s old new).reg .sp = s.machine.reg .sp := (calling_args sym s old new).1
  constructor
  · rw [reg, done.machine, sp, ← calling_frame sym s old new, ← switched.tss, (calling_args sym s old new).2.1]
  · rw [reg, freg, done.machine]
    exact switched.saved
  · simp [Context.calls]
  · rw [reg, sp]
    exact on
  · intro info known
    rw [done.oldtrapinfo, Function.update_of_ne other.symm, Function.update_self, shows.trapInfo info known]

theorem switch_realised (realises : Realises sym s t) (allowed : (SwitchEvent.switch taskid fuel).Allowed sym s)
    (done : switchTo sym s taskid fuel = some s') :
    ∃ t', ((SwitchEvent.switch taskid fuel).thread sym s).step t = some t' ∧ Realises sym s' t' := by
  rcases realises with ⟨layout, current, slots, ⟨c, running, shows⟩, parked, directory, kernelStack⟩
  have live : s.task s.current ≠ none := by
    rw [current, Ne, ← slots, running]
    exact Option.some_ne_none c
  rcases Option.ne_none_iff_exists'.mp live with ⟨old, here⟩
  have present : s.task taskid ≠ none := by
    intro empty
    simp [switchTo, here, empty] at done
  rcases Option.ne_none_iff_exists'.mp present with ⟨new, there⟩
  rcases Option.ne_none_iff_exists'.mp (mt (slots taskid).mp present) with ⟨c₁, context⟩
  by_cases other : taskid = s.current
  · -- the task goes on
    have still : s' = s := by
      rw [other] at done
      simpa [switchTo, here] using done.symm
    have stays : t.current = taskid := current.symm.trans other.symm
    refine ⟨t, ?_, still ▸ ⟨layout, current, slots, ⟨c, running, shows⟩, parked, directory, kernelStack⟩⟩
    simp [SwitchEvent.thread, ThreadEvent.step, context, stays]
  · have on := allowed old here
    have waits := parked taskid new c₁ other there context
    rcases switchTo_switched here there other done with ⟨r, runs, switchedTo⟩
    have switched := switchToTss_spec (switch_entry layout here there other on waits) runs
    have away : t.current ≠ taskid := fun same => other (same.symm.trans current.symm)
    refine ⟨⟨Function.update t.context t.current (some (c.calls old.tss new.tss)), taskid⟩, ?_, ?_⟩
    · simp [SwitchEvent.thread, ThreadEvent.step, running, context, away, here, there]
    · refine ⟨switchedTo.task ▸ layout, switchedTo.current, ?_, ⟨c₁, ?_, ?_⟩, ?_, ?_, ?_⟩
      · rw [switchedTo.task]
        exact slots_live slots (current ▸ live)
      · exact (Function.update_of_ne away.symm ..).trans context
      · exact switchedTo.shows switched layout here there other on waits
      · intro i u c₂ apart task context₂
        rw [switchedTo.task] at task
        rw [switchedTo.current] at apart
        by_cases mine : i = s.current
        · subst mine
          rw [here] at task
          cases task
          rw [current] at context₂
          cases (Function.update_self ..).symm.trans context₂
          exact switchedTo.parks switched other on shows
        · have before := update_elsewhere (current ▸ mine) context₂
          apply (parked i u c₂ mine task before).kept
          · intro a owns
            rw [switchedTo.machine]
            exact switched_owned switched layout here on mine task owns
          · rw [switchedTo.oldtrapinfo, Function.update_of_ne apart, Function.update_of_ne mine]
      · intro u task
        rw [switchedTo.task, switchedTo.current, there] at task
        cases task
        exact switchedTo.pageDirTable
      · intro u task
        rw [switchedTo.task, switchedTo.current, there] at task
        cases task
        have outside := (layout.symbols s.current old here).2
        rw [switchedTo.machine, ← calling_cur sym s old new]
        apply switched.others
        · intro j bound same
          rw [calling_frame] at same
          exact outside (same ▸ .inl (on.frame j bound))
        · intro j bound same
          rw [(calling_args sym s old new).2.1] at same
          exact outside (same ▸ .inr (old.tss_slot j bound.le))
        · intro same
          rw [calling_frame] at same
          exact outside (same ▸ .inl on.belowFrame)

/-- A switch comes to the other task, where the stack has room. -/
theorem switchTo_returns (realises : Realises sym s t) (here : s.task s.current = some old)
    (there : s.task taskid = some new) (other : taskid ≠ s.current) (on : OnStack old (s.machine.reg .sp))
    (room : (old.kernelStack - (s.machine.reg .sp + -registerFrame)).toInt < 4096) :
    ∃ fuel s', switchTo sym s taskid fuel = some s' := by
  have present : s.task taskid ≠ none := by simp [there]
  rcases Option.ne_none_iff_exists'.mp (mt (realises.slots taskid).mp present) with ⟨c, context⟩
  have entry := switch_entry realises.layout here there other on (realises.parked taskid new c other there context)
  have outside : sym.curKernelStack ≠ slot old.tss epcSlot := by
    intro same
    exact (realises.layout.symbols s.current old here).2 (same ▸ .inr (old.tss_slot epcSlot (le_refl _)))
  have fits : ((calling sym s old new).mem sym.oldKernelStack - savedFrame (calling sym s old new)).toInt < 4096 := by
    rwa [calling_old sym s old new outside, calling_frame, realises.kernelStack old here]
  rcases switchToTss_returns entry fits with ⟨fuel, r, runs, -⟩
  have done : (switchTo sym s taskid fuel).isSome := by
    simp [switchTo, here, there, Ne.symm other, runs]
  exact ⟨fuel, Option.isSome_iff_exists.mp done⟩

end Switch

section Runs

variable {events : List ThreadEvent} {e : SwitchEvent}

theorem step_realised (realises : Realises sym s t) (allowed : e.Allowed sym s) (stepped : e.step sym s = some s') :
    ∃ t', (e.thread sym s).step t = some t' ∧ Realises sym s' t' := by
  cases e with
  | work pc machine trapInfo userKernel =>
    cases stepped
    exact ⟨_, rfl, work_realised realises allowed⟩
  | fork nr child => exact ⟨_, rfl, fork_realised realises allowed stepped⟩
  | release nr =>
    cases stepped
    exact ⟨_, rfl, release_realised realises allowed⟩
  | switch taskid fuel => exact switch_realised realises allowed stepped

/-- In every run the tasks are threads: nobody but a task itself changes its registers, and a switch brings back the
    registers and the trap information that the task had when it was switched away. -/
theorem tasks_are_threads (realises : Realises sym s t) (run : SwitchRun sym s events s') :
    ∃ t', threadRun t events = some t' ∧ Realises sym s' t' := by
  induction run with
  | start => exact ⟨t, rfl, realises⟩
  | next run allowed stepped ih =>
    rcases ih with ⟨t₁, ran, realises₁⟩
    rcases step_realised realises₁ allowed stepped with ⟨t', step, realises'⟩
    refine ⟨t', ?_, realises'⟩
    simp only [threadRun, List.foldlM_append, List.foldlM_cons, List.foldlM_nil] at ran ⊢
    rw [ran]
    simpa using step

end Runs

section Example

/-- Task 0 in its first system call. -/
def firstThread : Thread := ⟨0x80020000, 0x80030000, 0x80100000⟩

def secondThread : Thread := ⟨0x80040000, 0x80050000, 0x80110000⟩

def boardSymbols : SwitchSymbols where
  oldKernelStack := 0x80010000
  curKernelStack := 0x80010008
  forkProcessExit := 0x80001000
  aligned := by decide
  different := by decide

def firstProcessor : Processor where
  pc := 0x80001234
  machine :=
    { reg := fun r => if r = .sp then 0x8002F800 else 0
      mem := fun a => if a = boardSymbols.curKernelStack then 0x80030000 else 0
      freg := fun _ => 0 }
  trapInfo := ⟨0xC0000100, 0xC0000104, 0x8002FE00, 0x8002FF00, 0, 0⟩
  pageDirTable := 0x80100000
  userKernel := false
  current := 0
  task := fun i => if i = 0 then some firstThread else none
  oldtrapinfo := fun _ => none

def firstContext : Context :=
  ⟨firstProcessor.pc, firstProcessor.machine.reg, firstProcessor.machine.freg, some firstProcessor.trapInfo⟩

def firstThreads : Threads := ⟨fun i => if i = 0 then some firstContext else none, 0⟩

theorem two_tasks {u : Thread} (there : Function.update firstProcessor.task 1 (some secondThread) i = some u) :
    (i = 0 ∧ u = firstThread) ∨ (i = 1 ∧ u = secondThread) := by
  rw [Function.update_apply] at there
  split at there
  · exact .inr ⟨‹_›, (Option.some.inj there).symm⟩
  · simp only [firstProcessor] at there
    split at there
    · exact .inl ⟨‹_›, (Option.some.inj there).symm⟩
    · cases there

theorem first_owns {a : Word} : firstThread.Owns a ↔ (a - 0x80028000).toNat < 32768 ∨ (a - 0x80020000).toNat < 520 :=
  Iff.rfl

theorem second_owns {a : Word} : secondThread.Owns a ↔ (a - 0x80048000).toNat < 32768 ∨ (a - 0x80040000).toNat < 520 :=
  Iff.rfl

theorem two_layout : Layout boardSymbols (Function.update firstProcessor.task 1 (some secondThread)) := by
  have apart : ∀ a, firstThread.Owns a → ¬ secondThread.Owns a := by
    intro a
    rw [first_owns, second_owns]
    bv_omega
  constructor
  · intro i u there
    rcases two_tasks there with ⟨-, rfl⟩ | ⟨-, rfl⟩ <;> decide
  · intro i u there a stack tss
    rcases two_tasks there with ⟨-, rfl⟩ | ⟨-, rfl⟩
    · have low : (a - 0x80028000).toNat < 32768 := stack
      have high : (a - 0x80020000).toNat < 520 := tss
      bv_omega
    · have low : (a - 0x80048000).toNat < 32768 := stack
      have high : (a - 0x80040000).toNat < 520 := tss
      bv_omega
  · intro i j u v other there there' a owns owns'
    rcases two_tasks there with ⟨rfl, rfl⟩ | ⟨rfl, rfl⟩ <;> rcases two_tasks there' with ⟨rfl, rfl⟩ | ⟨rfl, rfl⟩
    · exact other rfl
    · exact apart a owns owns'
    · exact apart a owns' owns
    · exact other rfl
  · intro i u there
    rcases two_tasks there with ⟨-, rfl⟩ | ⟨-, rfl⟩
    · rw [first_owns, first_owns]
      decide
    · rw [second_owns, second_owns]
      decide

theorem first_realised : Realises boardSymbols firstProcessor firstThreads := by
  have alone : ∀ {i u}, firstProcessor.task i = some u → i = 0 ∧ u = firstThread := by
    intro i u here
    simp only [firstProcessor] at here
    split at here
    · exact ⟨‹_›, (Option.some.inj here).symm⟩
    · cases here
  have before : Function.update firstProcessor.task 1 none = firstProcessor.task := Function.update_eq_self_iff.mpr rfl
  have layout : Layout boardSymbols firstProcessor.task := by
    let both := { firstProcessor with task := Function.update firstProcessor.task 1 (some secondThread) }
    have removed : Layout boardSymbols (Function.update both.task 1 none) := two_layout.without 1
    rwa [Function.update_idem, before] at removed
  refine ⟨layout, rfl, ?_, ⟨firstContext, rfl, rfl, rfl, rfl, ?_⟩, ?_, ?_, ?_⟩
  · intro i
    by_cases first : i = 0 <;> simp [firstThreads, firstProcessor, first]
  · exact fun info known => Option.some.inj known
  · intro i u c other here
    exact absurd (alone here).1 other
  · intro u here
    rw [(alone here).2]
    rfl
  · intro u here
    rw [(alone here).2]
    rfl

theorem first_forks : (SwitchEvent.fork 1 secondThread).Allowed boardSymbols firstProcessor := by
  refine ⟨rfl, two_layout, ?_⟩
  intro u here i bound
  cases here
  constructor
  · change (0x8002FE00 + BitVec.ofNat 64 (8 * i) - 0x80028000 : Word).toNat < 32768
    bv_omega
  · change (0x8002FF00 + BitVec.ofNat 64 (8 * i) - 0x80028000 : Word).toNat < 32768
    bv_omega

/-- Task 0 makes a child, and switches to it. -/
theorem child_thread_runs : ∃ events s' t', SwitchRun boardSymbols firstProcessor events s' ∧ s'.current = 1 ∧
    threadRun firstThreads events = some t' ∧ Realises boardSymbols s' t' := by
  have forks : ∃ s₁, copyProcess boardSymbols firstProcessor 1 secondThread = some s₁ := ⟨_, rfl⟩
  rcases forks with ⟨s₁, done⟩
  have waits := fork_realised first_realised first_forks done
  rcases copyProcess_forked done with ⟨parent, here, forked⟩
  cases here
  have current : s₁.current = 0 := forked.current
  have old : s₁.task s₁.current = some firstThread := by
    rw [current, forked.task]
    rfl
  have new : s₁.task 1 = some secondThread := by
    rw [forked.task]
    rfl
  have sp : s₁.machine.reg .sp = 0x8002F800 := by
    rw [forked.reg]
    rfl
  have on : OnStack firstThread (s₁.machine.reg .sp) := by
    rw [sp]
    exact ⟨by decide, by decide, by decide⟩
  have other : 1 ≠ s₁.current := by
    rw [current]
    decide
  have room : (firstThread.kernelStack - (s₁.machine.reg .sp + -registerFrame)).toInt < 4096 := by
    rw [sp]
    decide
  rcases switchTo_returns waits old new other on room with ⟨fuel, s', switched⟩
  have allowed : (SwitchEvent.switch 1 fuel).Allowed boardSymbols s₁ := by
    intro u there
    cases old.symm.trans there
    exact on
  have run := (SwitchRun.start.next first_forks done).next allowed switched
  rcases tasks_are_threads first_realised run with ⟨t', ran, realises⟩
  rcases switchTo_switched old new other switched with ⟨_, _, result⟩
  exact ⟨_, s', t', run, result.current, ran, realises⟩

end Example

end K210Linux.Kernel.Switching
