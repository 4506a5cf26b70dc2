/-
Lifetimes of streams and conversion paths.  A stream that has lost its last
`shared_ptr` never gets an owner again, so the paths whose destructors run
belong to streams that no worker can be filling.
-/
import EpicsToKafka.ConversionControl

namespace EpicsToKafka

variable {n m : Nat} {cfg : Config} {s s' : State n m} {w : Fin n} {c : Fin m}

/-- Paths a worker still has to destroy; the first one is in its wait loop. -/
def WorkerPc.dying : WorkerPc → List Nat
  | .destroying _ paths _ => paths
  | _ => []

/-- Paths a caller still has to destroy; the first one is in its wait loop. -/
def CallerPc.dying : CallerPc → List Nat
  | .erasing paths => paths
  | .returning paths => paths
  | _ => []

namespace State

/-- No `shared_ptr` to the allocated stream is left. -/
structure Unowned (s : State n m) (stream : Nat) : Prop where
  lt_nextStream : stream < s.nextStream
  not_mem : stream ∉ s.streamPointers
  worker : ∀ w, (s.pc w).held ≠ some stream
  caller : ∀ c, (s.caller c).held ≠ some stream

/-- The path belongs to a stream that has lost its last owner. -/
def Orphaned (s : State n m) (path : Nat) : Prop :=
  ∃ stream, path ∈ (s.heap stream).conversionPaths ∧ s.Unowned stream

/-- Paths of all threads whose destructors have not returned yet. -/
def Dying (s : State n m) (path : Nat) : Prop :=
  (∃ w, path ∈ (s.pc w).dying) ∨ ∃ c, path ∈ (s.caller c).dying

end State

/-- A worker that lets go of a stream nobody else owns leaves it unowned. -/
theorem State.Unowned.of_useCount {s : State n m} {stream : Nat}
    (hlt : stream < s.nextStream) (hcount : s.useCount stream = 0) :
    s.Unowned stream := by
  obtain ⟨hmem, hworker, hcaller⟩ := (s.useCount_eq_zero_iff stream).mp hcount
  exact ⟨hlt, hmem, hworker, hcaller⟩

/-- A caller comes to hold a stream only from `StreamPointers`, or by
allocating it. -/
theorem CallerMove.held (hmove : CallerMove s c s') {stream : Nat}
    (hheld : (s'.caller c).held = some stream) :
    (s.caller c).held = some stream ∨ stream ∈ s.streamPointers ∨
      stream = s.nextStream := by
  cases hmove with
  | found _ _ hmem =>
      simp only [State.setCaller_caller_self, CallerPc.held, Option.some.injEq] at hheld
      exact Or.inr (Or.inl (hheld ▸ hmem))
  | add _ _ =>
      simp only [State.setCaller_caller_self, CallerPc.held, Option.some.injEq] at hheld
      exact Or.inr (Or.inr hheld.symm)
  | addConverter _ => exact Or.inl hheld
  | addMapping _ _ | notFound _ _ _ | throwEarly _ | keepStream _
  | dropStream _ _ | eraseIf _ _ | erased _ | erasePath _ _ | returned _
  | returnPath _ _ => simp [CallerPc.held] at hheld

theorem CallerMove.streamPointers (hmove : CallerMove s c s') {stream : Nat}
    (hmem : stream ∈ s'.streamPointers) :
    stream ∈ s.streamPointers ∨ stream = s.nextStream := by
  cases hmove with
  | add _ _ => simpa using hmem
  | eraseIf _ _ => exact Or.inl (List.mem_of_mem_filter hmem)
  | addMapping _ _ | found _ _ _ | notFound _ _ _ | addConverter _
  | throwEarly _ | keepStream _ | dropStream _ _ | erased _ | erasePath _ _
  | returned _ | returnPath _ _ => exact Or.inl hmem

theorem CallerMove.nextStream_le (hmove : CallerMove s c s') :
    s.nextStream ≤ s'.nextStream := by
  cases hmove with
  | add _ _ => exact Nat.le_succ _
  | addMapping _ _ | found _ _ _ | notFound _ _ _ | addConverter _
  | throwEarly _ | keepStream _ | dropStream _ _ | eraseIf _ _ | erased _
  | erasePath _ _ | returned _ | returnPath _ _ => exact Nat.le_refl _

/-- Only the caller that holds a stream changes its conversion paths. -/
theorem CallerMove.conversionPaths (hmove : CallerMove s c s') {stream : Nat}
    (hlt : stream < s.nextStream) (hheld : (s.caller c).held ≠ some stream) :
    (s'.heap stream).conversionPaths = (s.heap stream).conversionPaths := by
  cases hmove with
  | add _ _ =>
      have hne : stream ≠ s.nextStream := by omega
      simp [hne]
  | @addConverter owner hpc =>
      have hne : stream ≠ owner := by
        intro heq
        exact hheld (by rw [hpc, heq]; rfl)
      simp [hne]
  | addMapping _ _ | found _ _ _ | notFound _ _ _ | throwEarly _
  | keepStream _ | dropStream _ _ | eraseIf _ _ | erased _ | erasePath _ _
  | returned _ | returnPath _ _ => rfl

namespace State.Unowned

variable {stream : Nat}

theorem workerMove (hunowned : s.Unowned stream)
    (hmove : WorkerMove cfg s w s') : s'.Unowned stream := by
  have hframe := hmove.frame
  refine ⟨?_, ?_, ?_, ?_⟩
  · rw [hframe.nextStream]
    exact hunowned.lt_nextStream
  · rw [hframe.streamPointers]
    exact hunowned.not_mem
  · intro v hheld
    by_cases hv : v = w
    · subst hv
      rcases hmove.held hheld with hold | hmem
      · exact hunowned.worker v hold
      · exact hunowned.not_mem hmem
    · exact hunowned.worker v (by rwa [hframe.pc v hv] at hheld)
  · rw [hframe.caller]
    exact hunowned.caller

theorem callerMove (hunowned : s.Unowned stream) (hmove : CallerMove s c s') :
    s'.Unowned stream := by
  have hframe := hmove.frame
  have hlt := hunowned.lt_nextStream
  refine ⟨?_, ?_, ?_, ?_⟩
  · exact Nat.lt_of_lt_of_le hlt hmove.nextStream_le
  · intro hmem
    rcases hmove.streamPointers hmem with hold | hnew
    · exact hunowned.not_mem hold
    · omega
  · rw [hframe.pc]
    exact hunowned.worker
  · intro d hheld
    by_cases hd : d = c
    · subst hd
      rcases hmove.held hheld with hold | hmem | hnew
      · exact hunowned.caller d hold
      · exact hunowned.not_mem hmem
      · omega
    · exact hunowned.caller d (by rwa [hframe.caller d hd] at hheld)

theorem outsideMove (hunowned : s.Unowned stream) (hmove : OutsideMove s s') :
    s'.Unowned stream := by
  cases hmove with
  | @start w hpc _ =>
      refine { hunowned with worker := ?_ }
      intro v hheld
      by_cases hv : v = w
      · subst hv
        simp [WorkerPc.held] at hheld
      · exact hunowned.worker v (by rwa [s.setPc_pc_of_ne _ hv] at hheld)
  | stop | join _ | enqueueUpdate _ | errorInEpics _ => exact { hunowned with }

end State.Unowned

namespace State.Orphaned

variable {path : Nat}

theorem workerMove (horphaned : s.Orphaned path)
    (hmove : WorkerMove cfg s w s') : s'.Orphaned path := by
  obtain ⟨stream, hpath, hunowned⟩ := horphaned
  refine ⟨stream, ?_, hunowned.workerMove hmove⟩
  rwa [hmove.frame.conversionPaths]

theorem callerMove (horphaned : s.Orphaned path) (hmove : CallerMove s c s') :
    s'.Orphaned path := by
  obtain ⟨stream, hpath, hunowned⟩ := horphaned
  refine ⟨stream, ?_, hunowned.callerMove hmove⟩
  rwa [hmove.conversionPaths hunowned.lt_nextStream (hunowned.caller c)]

theorem outsideMove (horphaned : s.Orphaned path) (hmove : OutsideMove s s') :
    s'.Orphaned path := by
  obtain ⟨stream, hpath, hunowned⟩ := horphaned
  refine ⟨stream, ?_, hunowned.outsideMove hmove⟩
  cases hmove with
  | @enqueueUpdate changed _ _ | @errorInEpics changed _ =>
      by_cases hx : stream = changed
      · subst hx; simpa using hpath
      · simpa [hx] using hpath
  | start _ _ | stop | join _ => exact hpath

end State.Orphaned

/-- Destructors only run for paths of streams without an owner. -/
def LifetimesOk (s : State n m) : Prop :=
  ∀ path, s.Dying path → s.Orphaned path

theorem LifetimesOk.workerMove (hlife : LifetimesOk s) (halloc : AllocOk s)
    (hmove : WorkerMove cfg s w s') : LifetimesOk s' := by
  have hframe := hmove.frame
  -- either the path was dying already, or this step dropped the last owner
  have hkept : ∀ path, (∃ v, v ≠ w ∧ path ∈ (s'.pc v).dying) ∨
      (∃ c, path ∈ (s'.caller c).dying) ∨ path ∈ (s.pc w).dying →
      s'.Orphaned path := by
    rintro path (⟨v, hv, hpath⟩ | ⟨c, hpath⟩ | hpath)
    · rw [hframe.pc v hv] at hpath
      exact (hlife path (Or.inl ⟨v, hpath⟩)).workerMove hmove
    · rw [hframe.caller] at hpath
      exact (hlife path (Or.inr ⟨c, hpath⟩)).workerMove hmove
    · exact (hlife path (Or.inl ⟨w, hpath⟩)).workerMove hmove
  rintro path (⟨v, hpath⟩ | ⟨c, hpath⟩)
  · by_cases hv : v = w
    · subst hv
      cases hmove with
      | @lastOwner frame stream n1 hpc hcount =>
          have hlt : stream < s.nextStream :=
            halloc.worker_lt v stream (by rw [hpc]; rfl)
          have hreleased :
              (s.setPc v (.advance frame n1)).Unowned stream :=
            .of_useCount hlt hcount
          have hmem : path ∈ (s.heap stream).conversionPaths := by
            simpa [WorkerPc.dying] using hpath
          refine ⟨stream, hmem, { hreleased with worker := ?_ }⟩
          intro u hheld
          by_cases hu : u = v
          · subst hu
            simp [WorkerPc.held] at hheld
          · exact hreleased.worker u
              (by rwa [State.setPc_pc_of_ne _ _ hu] at hheld ⊢)
      | pathDestroyed hpc _ =>
          apply hkept
          simp only [State.setPc_pc_self, WorkerPc.dying] at hpath
          simp only [hpc, WorkerPc.dying]
          exact Or.inr (Or.inr (List.mem_cons_of_mem _ hpath))
      | outOfRange _ _ _ => exact hkept path (Or.inr (Or.inr hpath))
      | exit _ _ | callFill _ _ _ | skipFill _ _ | lockMx _ _
      | noStreams _ _ _ | someStreams _ _ _ | lockStreams _ _
      | enterLoop _ _ _ | visit _ _ _ | iterate _ _ | closeBatch _
      | notLastOwner _ | streamDestroyed _ | again _ _ _ _ | drained _ _
      | emit _ _ | destroyPacket _ => simp [WorkerPc.dying] at hpath
      | enterFull _ _ _ | finish _ _ _ =>
          simp [State.fillReturns, WorkerPc.dying] at hpath
    · exact hkept path (Or.inl ⟨v, hv, hpath⟩)
  · exact hkept path (Or.inr (Or.inl ⟨c, hpath⟩))

/-- Setting a caller that holds nothing to a counter that holds nothing
creates no owner. -/
theorem State.Unowned.setCaller {stream : Nat} {pc : CallerPc}
    (hunowned : (s.setCaller c (.returning [])).Unowned stream)
    (hpc : pc.held = none) : (s.setCaller c pc).Unowned stream := by
  refine { hunowned with caller := ?_ }
  intro d hheld
  by_cases hd : d = c
  · subst hd
    simp [hpc] at hheld
  · exact hunowned.caller d (by rwa [State.setCaller_caller_of_ne _ _ hd] at hheld ⊢)

theorem State.destroyedBy_unowned {victim : Nat → Bool} (halloc : AllocOk s)
    {stream : Nat} (hmem : stream ∈ s.destroyedBy victim) :
    State.Unowned { s with
      streamPointers := s.streamPointers.filter (!victim ·) } stream := by
  simp only [State.destroyedBy, List.mem_filter, decide_eq_true_eq] at hmem
  obtain ⟨⟨hstream, -⟩, hcount⟩ := hmem
  exact .of_useCount (halloc.pointers_lt stream hstream) hcount

theorem LifetimesOk.callerMove (hlife : LifetimesOk s) (halloc : AllocOk s)
    (hmove : CallerMove s c s') : LifetimesOk s' := by
  have hframe := hmove.frame
  have hkept : ∀ path, (∃ v, path ∈ (s'.pc v).dying) ∨
      (∃ d, d ≠ c ∧ path ∈ (s'.caller d).dying) ∨ path ∈ (s.caller c).dying →
      s'.Orphaned path := by
    rintro path (⟨v, hpath⟩ | ⟨d, hd, hpath⟩ | hpath)
    · rw [hframe.pc] at hpath
      exact (hlife path (Or.inl ⟨v, hpath⟩)).callerMove hmove
    · rw [hframe.caller d hd] at hpath
      exact (hlife path (Or.inr ⟨d, hpath⟩)).callerMove hmove
    · exact (hlife path (Or.inr ⟨c, hpath⟩)).callerMove hmove
  rintro path (⟨v, hpath⟩ | ⟨d, hpath⟩)
  · exact hkept path (Or.inl ⟨v, hpath⟩)
  · by_cases hd : d = c
    · subst hd
      cases hmove with
      | @dropStream stream hpc hcount =>
          have hlt : stream < s.nextStream := halloc.caller_lt d stream hpc
          have hdropped : (s.setCaller d (.returning [])).Unowned stream :=
            .of_useCount hlt hcount
          have hmem : path ∈ (s.heap stream).conversionPaths := by
            simpa [CallerPc.dying] using hpath
          exact ⟨stream, hmem, hdropped.setCaller rfl⟩
      | @eraseIf victim hpc _ =>
          simp only [State.setCaller_caller_self, CallerPc.dying,
            List.mem_flatMap] at hpath
          obtain ⟨stream, hstream, hpath⟩ := hpath
          have hunowned := State.destroyedBy_unowned halloc hstream
          refine ⟨stream, hpath, { hunowned with caller := ?_ }⟩
          intro e hheld
          by_cases he : e = d
          · subst he
            simp [CallerPc.held] at hheld
          · exact hunowned.caller e (by rwa [hframe.caller e he] at hheld)
      | erasePath hpc _ | returnPath hpc _ =>
          apply hkept
          simp only [State.setCaller_caller_self, CallerPc.dying] at hpath
          simp only [hpc, CallerPc.dying]
          exact Or.inr (Or.inr (List.mem_cons_of_mem _ hpath))
      | addConverter _ => exact hkept path (Or.inr (Or.inr hpath))
      | addMapping _ _ | found _ _ _ | notFound _ _ _ | add _ _
      | throwEarly _ | keepStream _ | erased _ | returned _ =>
          simp [CallerPc.dying] at hpath
    · exact hkept path (Or.inr (Or.inl ⟨d, hd, hpath⟩))

theorem LifetimesOk.outsideMove (hlife : LifetimesOk s)
    (hmove : OutsideMove s s') : LifetimesOk s' := by
  intro path hdying
  suffices hold : s.Dying path from (hlife path hold).outsideMove hmove
  cases hmove with
  | @start w hpc _ =>
      rcases hdying with ⟨v, hpath⟩ | hcaller
      · by_cases hv : v = w
        · subst hv
          simp [WorkerPc.dying] at hpath
        · exact Or.inl ⟨v, by rwa [s.setPc_pc_of_ne _ hv] at hpath⟩
      · exact Or.inr hcaller
  | stop | join _ | enqueueUpdate _ | errorInEpics _ => exact hdying

theorem reachable_lifetimesOk (hreach : (conversionSystem cfg n m).Reachable s) :
    LifetimesOk s := by
  refine hreach.invariant ?_ ?_
  · rintro s ⟨cursor, rfl⟩ path (⟨w, hpath⟩ | ⟨c, hpath⟩)
    · cases hpath
    · cases hpath
  · intro s action s' hbefore hlife hstep
    have halloc := reachable_allocOk hbefore
    rcases step_move hstep with ⟨w, hmove⟩ | ⟨c, hmove⟩ | hmove
    · exact hlife.workerMove halloc hmove
    · exact hlife.callerMove halloc hmove
    · exact hlife.outsideMove hmove

/-- No worker is filling the stream of a path under destruction. -/
theorem LifetimesOk.not_held (hlife : LifetimesOk s) (halloc : AllocOk s)
    {path stream : Nat} (hdying : s.Dying path)
    (hpath : path ∈ (s.heap stream).conversionPaths) (w : Fin n) :
    (s.pc w).held ≠ some stream := by
  obtain ⟨owner, howner, hunowned⟩ := hlife path hdying
  rw [← halloc.paths_owner owner stream path howner hpath]
  exact hunowned.worker w

end EpicsToKafka
