/-
The cursor of `ConversionScheduler::fill` under concurrent removals.  Each
read of `streams.size()` and each `streams[sid]` locks `StreamsMutex` afresh,
so a removal can come between a bounds check and the use of the index, and
the index at which a round started can stop being one.
-/
import EpicsToKafka.ConversionLifetimes

namespace EpicsToKafka

open Threads

variable {n m : Nat} {cfg : Config} {s s' : State n m} {w : Fin n} {c : Fin m}

/-- The locals of `fill` while its loop runs. -/
def WorkerPc.frame : WorkerPc → Option FillFrame
  | .index frame | .filling frame _ _ | .release frame _ _
  | .destroying frame _ _ | .advance frame _ => some frame
  | _ => none

/-- The worker is about to evaluate `streams[sid]`. -/
def WorkerPc.indexing : WorkerPc → Bool
  | .index _ => true
  | _ => false

theorem WorkerPc.locks_of_frame {pc : WorkerPc} {frame : FillFrame}
    (hframe : pc.frame = some frame) :
    pc.locksMx = true ∧ pc.locksStreams = true := by
  cases pc with
  | index _ => exact ⟨rfl, rfl⟩
  | filling _ _ _ => exact ⟨rfl, rfl⟩
  | release _ _ _ => exact ⟨rfl, rfl⟩
  | destroying _ _ _ => exact ⟨rfl, rfl⟩
  | advance _ _ => exact ⟨rfl, rfl⟩
  | notStarted | loop | lockMx | checkEmpty | lockStreams | checkSid | drain
  | emitting _ | exited => cases hframe

theorem State.wrapSid_lt (s : State n m) (sid : Nat) (hsome : s.streamPointers ≠ []) :
    s.wrapSid sid < s.streamPointers.length := by
  have hpos : 0 < s.streamPointers.length := List.length_pos_iff.mpr hsome
  rw [State.wrapSid]
  split <;> omega

theorem State.wrapSid_of_nil (s : State n m) (sid : Nat) (hnil : s.streamPointers = []) :
    s.wrapSid sid = 0 := by
  rw [State.wrapSid, hnil]
  simp

/-- Only a worker inside `fill` moves the cursor. -/
theorem WorkerMove.sid (hmove : WorkerMove cfg s w s') :
    s'.sid = s.sid ∨ (s.pc w).locksMx = true := by
  cases hmove with
  | enterLoop hpc _ _ | enterFull hpc _ _ | again hpc _ _ _ | finish hpc _ _ =>
      exact Or.inr (by rw [hpc]; rfl)
  | closeBatch _ => exact Or.inl (by unfold State.closeBatch; split <;> rfl)
  | destroyPacket _ => exact Or.inl (by unfold State.destroyPacket; split <;> rfl)
  | exit _ _ | callFill _ _ _ | skipFill _ _ | lockMx _ _ | noStreams _ _ _
  | someStreams _ _ _ | lockStreams _ _ | outOfRange _ _ _ | visit _ _ _
  | iterate _ _ | lastOwner _ _ | notLastOwner _ | pathDestroyed _ _
  | streamDestroyed _ | drained _ _ | emit _ _ => exact Or.inl rfl

/-- Another worker's move leaves the cursor of a fill alone. -/
theorem WorkerMove.sid_of_other (hlocks : LocksOk s) (hmove : WorkerMove cfg s w s')
    {v : Fin n} (hv : v ≠ w) (hinside : (s.pc v).locksMx = true) :
    s'.sid = s.sid := by
  rcases hmove.sid with hsame | hworker
  · exact hsame
  · exact absurd (hlocks.mx.exclusive hinside hworker) hv

theorem WorkerMove.terminated (hmove : WorkerMove cfg s w s') :
    s'.terminated = s.terminated ∨
      ∃ frame, s.pc w = .index frame ∧ s.streamPointers.length ≤ s.sid := by
  cases hmove with
  | outOfRange hpc _ hrange => exact Or.inr ⟨_, hpc, hrange⟩
  | closeBatch _ => exact Or.inl (by unfold State.closeBatch; split <;> rfl)
  | destroyPacket _ => exact Or.inl (by unfold State.destroyPacket; split <;> rfl)
  | exit _ _ | callFill _ _ _ | skipFill _ _ | lockMx _ _ | noStreams _ _ _
  | someStreams _ _ _ | lockStreams _ _ | enterLoop _ _ _ | enterFull _ _ _
  | visit _ _ _ | iterate _ _ | lastOwner _ _ | notLastOwner _
  | pathDestroyed _ _ | streamDestroyed _ | again _ _ _ _ | finish _ _ _
  | drained _ _ | emit _ _ => exact Or.inl rfl

/-- Outside removals `StreamPointers` only grows, by `Streams::add`. -/
theorem KeepingMove.streamPointers (hmove : KeepingMove s c s') :
    s'.streamPointers = s.streamPointers ∨
      ((s.caller c).locksStreams = true ∧
        s'.streamPointers = s.streamPointers ++ [s.nextStream]) := by
  obtain ⟨hcaller, herasing⟩ := hmove
  cases hcaller with
  | add hpc _ => exact Or.inr ⟨by rw [hpc]; rfl, rfl⟩
  | eraseIf hpc _ =>
      obtain ⟨before, hbefore⟩ := herasing _ (s.setCaller_caller_self c _)
      rw [hpc] at hbefore
      cases hbefore
  | addMapping _ _ | found _ _ _ | notFound _ _ _ | addConverter _
  | throwEarly _ | keepStream _ | dropStream _ _ | erased _ | erasePath _ _
  | returned _ | returnPath _ _ => exact Or.inl rfl

/-- While a fill runs its loop, `addMapping` waits for `streams_mutex`. -/
theorem KeepingMove.streamPointers_of_frame (hlocks : LocksOk s)
    (hmove : KeepingMove s c s') {frame : FillFrame}
    (hframe : (s.pc w).frame = some frame) :
    s'.streamPointers = s.streamPointers := by
  rcases hmove.streamPointers with hsame | ⟨hcaller, -⟩
  · exact hsame
  · rw [hlocks.worker_excludes_caller (WorkerPc.locks_of_frame hframe).2] at hcaller
    cases hcaller

theorem RemovalMove.streamPointers {action : Action n m} {victim : Nat → Bool}
    (hmove : RemovalMove s action c victim s') :
    s'.streamPointers = s.streamPointers.filter (!victim ·) := by
  rw [hmove.next]
  rfl

/-- When a step keeps the next `streams[sid]` in range: the bounds checks see
a stream left, or the loop ends anyway, and no removal between a bounds check
and the indexing leaves `sid` streams or fewer. -/
def State.KeepsIndex (cfg : Config) (s : State n m) (action : Action n m) : Prop :=
  match action with
  | .work w _ =>
      match s.pc w with
      | .checkSid => cfg.nfm = 0 ∨ s.streamPointers ≠ []
      | .advance frame n1 =>
          frame.sid0 = 0 ∨ cfg.nfm ≤ uint32Add frame.nfc n1 ∨ s.streamPointers ≠ []
      | _ => True
  | _ => ∀ victim ∈ action.victim s, ∀ w, (s.pc w).indexing = true →
      s.sid < (s.streamPointers.filter (!victim ·)).length

instance (s : State n m) (action : Action n m) :
    Decidable (s.KeepsIndex cfg action) := by
  unfold State.KeepsIndex
  cases action with
  | work w _ => dsimp only; split <;> infer_instance
  | _ => infer_instance

/-- The process is alive and every fill about to index is in range. -/
structure IndexOk (s : State n m) : Prop where
  alive : s.terminated = false
  range : ∀ w frame, s.pc w = .index frame → s.sid < s.streamPointers.length

theorem IndexOk.workerMove (hindex : IndexOk s) (hlocks : LocksOk s)
    {sizeApprox : Nat} (hkeeps : s.KeepsIndex cfg (.work w sizeApprox))
    (hmove : WorkerMove cfg s w s') : IndexOk s' := by
  have hframe := hmove.frame
  constructor
  · rcases hmove.terminated with hsame | ⟨frame, hpc, hrange⟩
    · rw [hsame]
      exact hindex.alive
    · exact absurd (hindex.range w frame hpc) (Nat.not_lt.mpr hrange)
  · intro v frame hpc'
    rw [hframe.streamPointers]
    by_cases hv : v = w
    · subst hv
      cases hmove with
      | enterLoop hpc _ hspace =>
          simp only [State.KeepsIndex, hpc] at hkeeps
          apply s.wrapSid_lt
          exact hkeeps.resolve_left (by omega)
      | @again opened n1 hpc _ hsid hspace =>
          simp only [State.KeepsIndex, hpc] at hkeeps
          apply s.wrapSid_lt
          intro hnil
          rcases hkeeps with hzero | hfull | hsome
          · exact hsid (by rw [s.wrapSid_of_nil _ hnil, hzero])
          · omega
          · exact hsome hnil
      | outOfRange hpc _ _ => exact hindex.range v _ hpc
      | exit _ _ | callFill _ _ _ | skipFill _ _ | lockMx _ _
      | noStreams _ _ _ | someStreams _ _ _ | lockStreams _ _ | visit _ _ _
      | iterate _ _ | closeBatch _ | lastOwner _ _ | notLastOwner _
      | pathDestroyed _ _ | streamDestroyed _ | drained _ _ | emit _ _
      | destroyPacket _ => simp at hpc'
      | enterFull _ _ _ | finish _ _ _ => simp [State.fillReturns] at hpc'
    · rw [hframe.pc v hv] at hpc'
      rw [hmove.sid_of_other hlocks hv (by rw [hpc']; rfl)]
      exact hindex.range v frame hpc'

theorem IndexOk.removal (hindex : IndexOk s) {action : Action n m}
    {victim : Nat → Bool} (hkeeps : s.KeepsIndex cfg action)
    (hmove : RemovalMove s action c victim s') : IndexOk s' := by
  have hframe := hmove.callerMove.frame
  refine ⟨hframe.terminated.trans hindex.alive, fun w frame hpc => ?_⟩
  rw [hframe.pc] at hpc
  rw [hframe.sid, hmove.streamPointers]
  have hvictim := hmove.victim_eq
  cases action with
  | stopChannel _ _ | clearStreams _ | checkStreamStatus _ =>
      exact hkeeps victim hvictim w (by rw [hpc]; rfl)
  | _ => cases hvictim

theorem IndexOk.step (hindex : IndexOk s) (hlocks : LocksOk s)
    {action : Action n m} (hkeeps : s.KeepsIndex cfg action)
    (hstep : s.step cfg action = some s') : IndexOk s' := by
  rcases step_labelled hstep with
    ⟨w, sizeApprox, rfl, hmove⟩ | ⟨c, victim, hmove⟩ | ⟨c, hmove⟩ | hmove
  · exact hindex.workerMove hlocks hkeeps hmove
  · exact hindex.removal hkeeps hmove
  · have hframe := hmove.move.frame
    refine ⟨hframe.terminated.trans hindex.alive, fun w frame hpc => ?_⟩
    rw [hframe.pc] at hpc
    rw [hframe.sid, hmove.streamPointers_of_frame hlocks (by rw [hpc]; rfl)]
    exact hindex.range w frame hpc
  · cases hmove with
    | @start w hpc _ =>
        refine ⟨hindex.alive, fun v frame hpc' => ?_⟩
        by_cases hv : v = w
        · subst hv
          simp at hpc'
        · exact hindex.range v frame (by rwa [s.setPc_pc_of_ne _ hv] at hpc')
    | stop | join _ | enqueueUpdate _ | errorInEpics _ =>
        exact ⟨hindex.alive, hindex.range⟩

/-- The guard is exact: a worker's step that does not meet it leaves the
worker about to index an empty list. -/
theorem IndexOk.keepsIndex_work {sizeApprox : Nat} (hafter : IndexOk s')
    (hmove : WorkerMove cfg s w s') : s.KeepsIndex cfg (.work w sizeApprox) := by
  have hpointers := hmove.frame.streamPointers
  simp only [State.KeepsIndex]
  split
  · rename_i hpc
    by_contra hkeeps
    simp only [not_or, not_not] at hkeeps
    cases hmove with
    | enterLoop _ _ _ =>
        have hrange := hafter.range w _ (State.setPc_pc_self _ _ _)
        rw [hpointers, hkeeps.2] at hrange
        exact Nat.not_lt_zero _ hrange
    | enterFull _ _ hfull => exact hkeeps.1 hfull
    | _ => simp_all
  · rename_i frame n1 hpc
    by_contra hkeeps
    simp only [not_or, not_not] at hkeeps
    obtain ⟨hsid0, hspace, hnil⟩ := hkeeps
    cases hmove with
    | again _ _ _ _ =>
        have hrange := hafter.range w _ (State.setPc_pc_self _ _ _)
        rw [hpointers, hnil] at hrange
        exact Nat.not_lt_zero _ hrange
    | @finish opened n2 hpc' _ hend =>
        rw [hpc] at hpc'
        cases hpc'
        rw [s.wrapSid_of_nil _ hnil] at hend
        rcases hend with hend | hend
        · exact hsid0 hend.symm
        · exact hspace hend
    | _ => simp_all
  · trivial

/-- A step from a state with every index in range leads to such a state
exactly when it meets the guard. -/
theorem IndexOk.keepsIndex_iff (hindex : IndexOk s) (hlocks : LocksOk s)
    {action : Action n m} (hstep : s.step cfg action = some s') :
    IndexOk s' ↔ s.KeepsIndex cfg action := by
  constructor
  · intro hafter
    have hremoval : ∀ victim, action.victim s = some victim → ∀ w,
        (s.pc w).indexing = true →
        s.sid < (s.streamPointers.filter (!victim ·)).length := by
      intro victim hvictim w hindexing
      obtain ⟨c, hmove⟩ := step_removal hvictim hstep
      have hframe := hmove.callerMove.frame
      obtain ⟨frame, hpc⟩ : ∃ frame, s.pc w = .index frame := by
        cases hpc : s.pc w <;> simp_all [WorkerPc.indexing]
      have hrange := hafter.range w frame (by rw [hframe.pc, hpc])
      rwa [hframe.sid, hmove.streamPointers] at hrange
    cases action with
    | work w sizeApprox => exact hafter.keepsIndex_work (step_work hstep)
    | _ => exact hremoval
  · intro hkeeps
    exact hindex.step hlocks hkeeps hstep

theorem reachesVia_indexOk
    (hreach : (conversionSystem cfg n m).ReachesVia (State.KeepsIndex cfg) s) :
    IndexOk s := by
  refine hreach.invariant ?_ ?_
  · rintro s ⟨cursor, rfl⟩
    exact ⟨rfl, fun w frame hpc => by cases hpc⟩
  · intro s action s' hbefore hindex hkeeps hstep
    exact hindex.step (reachable_locksOk hbefore) hkeeps hstep

/-- No `std::out_of_range` has terminated the process, and every
`streams[sid]` that a worker can evaluate now is in range. -/
def State.IndexesInRange (s : State n m) : Prop :=
  s.terminated = false ∧ ∀ w frame, s.pc w = .index frame →
    s.streamsMutex = none → s.sid < s.streamPointers.length

/-- In a run whose steps keep the index, `StreamPointers.at` never throws; and
no weaker guard will do, since a step from a state with every index in range
leads to such a state only if it meets the guard. -/
theorem index_in_range_of_keepsIndex (cfg : Config) (n m : Nat) (s : State n m) :
    ((conversionSystem cfg n m).ReachesVia (State.KeepsIndex cfg) s →
        s.IndexesInRange) ∧
      ∀ action s', (conversionSystem cfg n m).Reachable s → IndexOk s →
        s.step cfg action = some s' →
          (IndexOk s' ↔ s.KeepsIndex cfg action) := by
  constructor
  · intro hreach
    have hindex := reachesVia_indexOk hreach
    exact ⟨hindex.alive, fun w frame hpc _ => hindex.range w frame hpc⟩
  · intro action s' hreach hindex hstep
    exact hindex.keepsIndex_iff (reachable_locksOk hreach) hstep

/-- The last of two streams is removed while the worker is about to index the
first one. -/
def removeBehindCursor (w : Fin n) (c : Fin m) : List (Action n m) :=
  Action.mapChannel c "a" ++ Action.mapChannel c "b" ++ [.start w] ++
    List.replicate 5 (.work w 0) ++ [.stopChannel c "b", .destruct c, .destruct c]

theorem removeBehindCursor_in_range :
    ∃ s : State 1 1, s.pc 0 = .index ⟨0, 0, 0, 2⟩ ∧ s.streamPointers = [0] ∧
      s.IndexesInRange := by
  obtain ⟨s, hreach, hpc, hleft⟩ := Transition.System.exists_reachesVia_of_run
    (T := conversionSystem .maxSubqueueSize 1 1) (State.KeepsIndex .maxSubqueueSize)
    (fun s => s.pc 0 = .index ⟨0, 0, 0, 2⟩ ∧ s.streamPointers = [0])
    (removeBehindCursor 0 0) ⟨0, rfl⟩ (by decide +kernel)
  exact ⟨s, hpc, hleft, (index_in_range_of_keepsIndex .maxSubqueueSize 1 1 s).1 hreach⟩

/-- The only stream is removed between the bounds check and the indexing. -/
def removeAtCursor (w : Fin n) (c : Fin m) : List (Action n m) :=
  Action.mapChannel c "a" ++ [.start w] ++ List.replicate 5 (.work w 0) ++
    [.stopChannel c "a", .destruct c, .destruct c, .work w 0]

theorem removeAtCursor_out_of_range :
    ¬ ∀ (cfg : Config) (n m : Nat) (s : State n m),
      (conversionSystem cfg n m).Reachable s → s.IndexesInRange := by
  intro hall
  obtain ⟨s, hreach, hterminated⟩ := Transition.System.exists_reachable_of_run
    (T := conversionSystem .maxSubqueueSize 1 1) (fun s => s.terminated = true)
    (removeAtCursor 0 0) ⟨0, rfl⟩ (by decide +kernel)
  have halive := (hall .maxSubqueueSize 1 1 s hreach).1
  rw [hterminated] at halive
  cases halive

/-- Streams still to be visited when the cursor stands before `sid` in a round
that started at `sid0`. -/
def roundLeft (sid0 sid length : Nat) : Nat :=
  if sid0 ≤ sid then length - sid + sid0 else sid0 - sid

/-- The same after `sid` has been visited. -/
def roundLeftAfter (sid0 sid length : Nat) : Nat :=
  if sid0 ≤ sid then length - (sid + 1) + sid0 else sid0 - (sid + 1)

theorem roundLeft_mono (sid0 sid : Nat) {length shorter : Nat}
    (hle : shorter ≤ length) :
    roundLeft sid0 sid shorter ≤ roundLeft sid0 sid length := by
  unfold roundLeft
  split <;> omega

theorem roundLeftAfter_mono (sid0 sid : Nat) {length shorter : Nat}
    (hle : shorter ≤ length) :
    roundLeftAfter sid0 sid shorter ≤ roundLeftAfter sid0 sid length := by
  unfold roundLeftAfter
  split <;> omega

theorem roundLeft_start {sid0 length : Nat} (hlt : sid0 < length) :
    roundLeft sid0 sid0 length = length := by
  rw [roundLeft, if_pos (Nat.le_refl _)]
  omega

theorem roundLeft_visit (sid0 : Nat) {sid length : Nat} (hlt : sid < length) :
    roundLeft sid0 sid length = roundLeftAfter sid0 sid length + 1 := by
  unfold roundLeft roundLeftAfter
  split <;> omega

/-- A round in which `sid0` is still an index comes back to it: the step of
the cursor loses nothing. -/
theorem roundLeft_wrapSid (s : State n m) {sid0 : Nat}
    (hlt : sid0 < s.streamPointers.length)
    (hne : s.wrapSid (s.sid + 1) ≠ sid0) :
    roundLeft sid0 (s.wrapSid (s.sid + 1)) s.streamPointers.length ≤
      roundLeftAfter sid0 s.sid s.streamPointers.length := by
  unfold State.wrapSid at hne ⊢
  unfold roundLeft roundLeftAfter
  split at hne
  · rename_i hend
    rw [if_pos hend]
    split <;> split <;> omega
  · rename_i hmore
    rw [if_neg hmore]
    split <;> split <;> omega

/-- A removal keeps the round of every running fill finite: the starting
index survives, or nothing is left to visit. -/
def State.KeepsRound (s : State n m) (action : Action n m) : Prop :=
  ∀ victim ∈ action.victim s, ∀ w, ∀ frame ∈ (s.pc w).frame,
    frame.sid0 < (s.streamPointers.filter (!victim ·)).length ∨
      s.streamPointers.filter (!victim ·) = [] ∨
      ((s.pc w).indexing = true ∧
        (s.streamPointers.filter (!victim ·)).length ≤ s.sid)

instance (s : State n m) (action : Action n m) : Decidable (s.KeepsRound action) :=
  inferInstanceAs (Decidable (∀ victim ∈ action.victim s, ∀ w, ∀ frame ∈ (s.pc w).frame,
    frame.sid0 < (s.streamPointers.filter (!victim ·)).length ∨
      s.streamPointers.filter (!victim ·) = [] ∨
      ((s.pc w).indexing = true ∧
        (s.streamPointers.filter (!victim ·)).length ≤ s.sid)))

/-- The visits of a running fill, and how many are left unless the list has
shrunk below the cursor. -/
structure RoundOk (s : State n m) (w : Fin n) (frame : FillFrame) : Prop where
  bounded : frame.visits ≤ frame.total
  before : (s.pc w).indexing = true → s.streamPointers.length ≤ s.sid ∨
    (frame.sid0 < s.streamPointers.length ∧
      frame.visits + roundLeft frame.sid0 s.sid s.streamPointers.length ≤ frame.total)
  after : (s.pc w).indexing = false → s.streamPointers = [] ∨
    (frame.sid0 < s.streamPointers.length ∧
      frame.visits + roundLeftAfter frame.sid0 s.sid s.streamPointers.length ≤
        frame.total)

/-- Steps that leave a fill, its cursor and the streams alone. -/
theorem RoundOk.congr {frame : FillFrame} (hround : RoundOk s w frame)
    (hindexing : (s'.pc w).indexing = (s.pc w).indexing) (hsid : s'.sid = s.sid)
    (hpointers : s'.streamPointers = s.streamPointers) : RoundOk s' w frame := by
  refine ⟨hround.bounded, ?_, ?_⟩
  · rw [hindexing, hsid, hpointers]
    exact hround.before
  · rw [hindexing, hsid, hpointers]
    exact hround.after

theorem RoundOk.shrink {frame : FillFrame} (hround : RoundOk s w frame)
    (hpc : s'.pc w = s.pc w) (hsid : s'.sid = s.sid)
    (hle : s'.streamPointers.length ≤ s.streamPointers.length)
    (hkeeps : frame.sid0 < s'.streamPointers.length ∨ s'.streamPointers = [] ∨
      ((s.pc w).indexing = true ∧ s'.streamPointers.length ≤ s.sid)) :
    RoundOk s' w frame := by
  have hleft := roundLeft_mono frame.sid0 s.sid hle
  have hleftAfter := roundLeftAfter_mono frame.sid0 s.sid hle
  refine ⟨hround.bounded, ?_, ?_⟩
  · rw [hpc, hsid]
    intro hindexing
    rcases hkeeps with hlt | hnil | ⟨-, hrange⟩
    · rcases hround.before hindexing with hrange | ⟨-, hbound⟩
      · exact Or.inl (by omega)
      · exact Or.inr ⟨hlt, by omega⟩
    · exact Or.inl (by simp [hnil])
    · exact Or.inl hrange
  · rw [hpc, hsid]
    intro hindexing
    rcases hkeeps with hlt | hnil | ⟨hcontra, -⟩
    · rcases hround.after hindexing with hnil | ⟨-, hbound⟩
      · rw [hnil] at hle
        exact Or.inl (List.length_eq_zero_iff.mp (Nat.le_zero.mp hle))
      · exact Or.inr ⟨hlt, by omega⟩
    · exact Or.inl hnil
    · rw [hindexing] at hcontra
      cases hcontra

/-- Every running fill is within its round. -/
def RoundsOk (s : State n m) : Prop :=
  ∀ w frame, (s.pc w).frame = some frame → RoundOk s w frame

theorem RoundOk.enterLoop (s : State n m) (w : Fin n) :
    RoundOk (State.setPc { s with sid := s.wrapSid s.sid } w
        (.index ⟨s.wrapSid s.sid, 0, 0, s.streamPointers.length⟩)) w
      ⟨s.wrapSid s.sid, 0, 0, s.streamPointers.length⟩ := by
  refine ⟨Nat.zero_le _, fun _ => ?_, fun hpast => ?_⟩
  · by_cases hnil : s.streamPointers = []
    · exact Or.inl (by simp [State.setPc, hnil])
    · have hlt := s.wrapSid_lt s.sid hnil
      refine Or.inr ⟨hlt, ?_⟩
      have hstart := roundLeft_start hlt
      simp only [State.setPc]
      omega
  · rw [State.setPc_pc_self] at hpast
    cases hpast

theorem RoundOk.visit {frame : FillFrame} {stream : Nat} {locals : FillLocals}
    (hround : RoundOk s w frame) (hpc : s.pc w = .index frame)
    (hstream : s.streamPointers[s.sid]? = some stream) :
    RoundOk (s.setPc w (.filling { frame with visits := frame.visits + 1 }
      stream locals)) w { frame with visits := frame.visits + 1 } := by
  obtain ⟨hlt, -⟩ := List.getElem?_eq_some_iff.mp hstream
  have hvisit := roundLeft_visit frame.sid0 hlt
  obtain ⟨hsid0, hbound⟩ := (hround.before (by rw [hpc]; rfl)).resolve_left (by omega)
  refine ⟨by simp only; omega, fun hindexing => ?_, fun _ => Or.inr ⟨hsid0, ?_⟩⟩
  · rw [State.setPc_pc_self] at hindexing
    cases hindexing
  · simp only [State.setPc]
    omega

theorem RoundOk.again {frame : FillFrame} {n1 : Nat} (hround : RoundOk s w frame)
    (hpc : s.pc w = .advance frame n1)
    (hsid : s.wrapSid (s.sid + 1) ≠ frame.sid0) :
    RoundOk (State.setPc { s with sid := s.wrapSid (s.sid + 1) } w
        (.index { frame with nfc := uint32Add frame.nfc n1 })) w
      { frame with nfc := uint32Add frame.nfc n1 } := by
  refine ⟨hround.bounded, fun _ => ?_, fun hpast => ?_⟩
  · rcases hround.after (by rw [hpc]; rfl) with hnil | ⟨hlt, hbound⟩
    · exact Or.inl (by simp [State.setPc, hnil])
    · have hwrap := roundLeft_wrapSid s hlt hsid
      refine Or.inr ⟨hlt, ?_⟩
      simp only [State.setPc]
      omega
  · rw [State.setPc_pc_self] at hpast
    cases hpast

theorem RoundsOk.workerMove (hrounds : RoundsOk s) (hlocks : LocksOk s)
    (hmove : WorkerMove cfg s w s') : RoundsOk s' := by
  intro v frame hrunning
  by_cases hv : v = w
  · subst hv
    have hpointers := hmove.frame.streamPointers
    cases hmove with
    | enterLoop hpc _ _ =>
        simp only [State.setPc_pc_self, WorkerPc.frame, Option.some.injEq] at hrunning
        subst hrunning
        exact .enterLoop s v
    | visit hpc _ hstream =>
        simp only [State.setPc_pc_self, WorkerPc.frame, Option.some.injEq] at hrunning
        subst hrunning
        exact (hrounds v _ (by rw [hpc]; rfl)).visit hpc hstream
    | again hpc _ hsid _ =>
        simp only [State.setPc_pc_self, WorkerPc.frame, Option.some.injEq] at hrunning
        subst hrunning
        exact (hrounds v _ (by rw [hpc]; rfl)).again hpc hsid
    | outOfRange _ _ _ => exact (hrounds v frame hrunning).congr rfl rfl rfl
    | iterate hpc _ | lastOwner hpc _ | notLastOwner hpc | pathDestroyed hpc _
    | streamDestroyed hpc =>
        have hbefore : (s.pc v).frame = some frame := by
          simpa [hpc, WorkerPc.frame] using hrunning
        exact (hrounds v frame hbefore).congr (by simp [hpc, WorkerPc.indexing]) rfl
          hpointers
    | closeBatch hpc =>
        have hbefore : (s.pc v).frame = some frame := by
          simpa [hpc, WorkerPc.frame] using hrunning
        refine (hrounds v frame hbefore).congr (by simp [hpc, WorkerPc.indexing]) ?_
          hpointers
        unfold State.closeBatch
        split <;> rfl
    | exit _ _ | callFill _ _ _ | skipFill _ _ | lockMx _ _ | noStreams _ _ _
    | someStreams _ _ _ | lockStreams _ _ | drained _ _ | emit _ _
    | destroyPacket _ => simp [WorkerPc.frame] at hrunning
    | enterFull _ _ _ | finish _ _ _ =>
        simp [State.fillReturns, WorkerPc.frame] at hrunning
  · have hpc := hmove.frame.pc v hv
    rw [hpc] at hrunning
    refine (hrounds v frame hrunning).congr (by rw [hpc]) ?_ hmove.frame.streamPointers
    exact hmove.sid_of_other hlocks hv (WorkerPc.locks_of_frame hrunning).1

theorem reachesVia_roundsOk
    (hreach : (conversionSystem cfg n m).ReachesVia State.KeepsRound s) :
    RoundsOk s := by
  refine hreach.invariant ?_ ?_
  · rintro s ⟨cursor, rfl⟩ w frame hrunning
    cases hrunning
  · intro s action s' hbefore hrounds hkeeps hstep
    have hlocks := reachable_locksOk hbefore
    rcases step_labelled hstep with
      ⟨w, sizeApprox, rfl, hmove⟩ | ⟨c, victim, hmove⟩ | ⟨c, hmove⟩ | hmove
    · exact hrounds.workerMove hlocks hmove
    · intro w frame hrunning
      have hframe := hmove.callerMove.frame
      rw [hframe.pc] at hrunning
      refine (hrounds w frame hrunning).shrink (by rw [hframe.pc]) hframe.sid ?_ ?_
      · rw [hmove.streamPointers]
        exact List.length_filter_le _ _
      · rw [hmove.streamPointers]
        exact hkeeps victim hmove.victim_eq w frame hrunning
    · intro w frame hrunning
      have hframe := hmove.move.frame
      rw [hframe.pc] at hrunning
      exact (hrounds w frame hrunning).congr (by rw [hframe.pc]) hframe.sid
        (hmove.streamPointers_of_frame hlocks hrunning)
    · cases hmove with
      | @start w hpc _ =>
          intro v frame hrunning
          by_cases hv : v = w
          · subst hv
            simp [WorkerPc.frame] at hrunning
          · rw [s.setPc_pc_of_ne _ hv] at hrunning
            exact (hrounds v frame hrunning).congr
              (by rw [s.setPc_pc_of_ne _ hv]) rfl rfl
      | stop | join _ | enqueueUpdate _ | errorInEpics _ =>
          exact fun v frame hrunning =>
            (hrounds v frame hrunning).congr rfl rfl rfl

/-- Every running fill has called `fillConversionQueue` at most once for each
stream there was when its loop started. -/
def State.FillsBounded (s : State n m) : Prop :=
  ∀ w frame, (s.pc w).frame = some frame → frame.visits ≤ frame.total

/-- In a run whose removals keep the rounds, no fill makes more calls than
there were streams when it started. -/
theorem fill_bounded_of_keepsRound (cfg : Config) (n m : Nat) (s : State n m)
    (hreach : (conversionSystem cfg n m).ReachesVia State.KeepsRound s) :
    s.FillsBounded :=
  fun w frame hrunning => (reachesVia_roundsOk hreach w frame hrunning).bounded

/-- A fill over three streams from cursor 1 loses the last one on the way. -/
def removeLastFromCursorOne (w : Fin n) (c : Fin m) : List (Action n m) :=
  Action.mapChannel c "a" ++ Action.mapChannel c "b" ++ Action.mapChannel c "c" ++
    [.start w] ++ List.replicate 6 (.work w 0) ++ [.stopChannel c "c"] ++
    List.replicate 2 (.destruct c) ++ List.replicate 5 (.work w 0)

theorem removeLastFromCursorOne_bounded :
    ∃ s : State 1 1, (s.pc 0).frame = some ⟨1, 0, 2, 3⟩ ∧ s.streamPointers = [0, 1] ∧
      s.FillsBounded := by
  obtain ⟨s, hreach, hframe, hleft⟩ := Transition.System.exists_reachesVia_of_run
    (T := conversionSystem .maxSubqueueSize 1 1) State.KeepsRound
    (fun s => (s.pc 0).frame = some ⟨1, 0, 2, 3⟩ ∧ s.streamPointers = [0, 1])
    (removeLastFromCursorOne 0 0) ⟨1, rfl⟩ (by decide +kernel)
  exact ⟨s, hframe, hleft, fill_bounded_of_keepsRound .maxSubqueueSize 1 1 s hreach⟩

/-- The same fill from cursor 2, so that its starting index is gone; it
visits the two streams that are left over and over. -/
def removeLastFromCursorTwo (w : Fin n) (c : Fin m) : List (Action n m) :=
  Action.mapChannel c "a" ++ Action.mapChannel c "b" ++ Action.mapChannel c "c" ++
    [.start w] ++ List.replicate 6 (.work w 0) ++ [.stopChannel c "c", .destruct c] ++
    List.replicate 20 (.work w 0)

theorem removeLastFromCursorTwo_unbounded :
    ¬ ∀ (cfg : Config) (n m : Nat) (s : State n m),
      (conversionSystem cfg n m).Reachable s → s.FillsBounded := by
  intro hall
  obtain ⟨s, hreach, hframe⟩ := Transition.System.exists_reachable_of_run
    (T := conversionSystem .maxSubqueueSize 1 1)
    (fun s => (s.pc 0).frame = some ⟨2, 0, 5, 3⟩)
    (removeLastFromCursorTwo 0 0) ⟨2, rfl⟩ (by decide +kernel)
  have hbounded : 5 ≤ 3 := hall .maxSubqueueSize 1 1 s hreach 0 _ hframe
  revert hbounded
  decide

end EpicsToKafka
