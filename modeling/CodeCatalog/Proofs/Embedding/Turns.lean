import CodeCatalog.Proofs.Embedding.Interleaving
import Mathlib.Algebra.Ring.Nat
set_option autoImplicit false

/-!
# Turns

When jobs take turns they make one of the runs that the permits allow.  Each job that has not ended
stands in the queue or waits for a permit, and a job waits only while the permits are held or on
their way to a job of the queue; so when the queue is empty all jobs have ended.

A turn takes something off what the queue has left to do, and only a step puts something back.
So the turns are bounded by the steps, and the run is cut short only if it is longer than the limit
on the turns allows.
-/

namespace CodeCatalog.Setup

variable {σ κ : Type}

/-! ## Entries of the queue -/

/-- The job of an entry. -/
def Turn.job : Turn → Nat
  | .enter job => job
  | .wake job => job
  | .wait job _ => job

/-- The job of the entry has no permit yet. -/
def Turn.isEnter : Turn → Bool
  | .enter _ => true
  | _ => false

/-- The number of turns up to the next step of the job. -/
def Turn.cost : Turn → Nat
  | .enter _ => 1
  | .wake _ => requestTurns + 1
  | .wait _ turns => max turns 1

/-- The job of an entry is as far as the entry tells. -/
inductive Turn.Stands (b : Batch σ κ) : Turn → Prop
  | enter {k : Nat} {job : Job} (h : b.jobs[k]? = some (job, .waiting)) : Turn.Stands b (.enter k)
  | wake {k attempt : Nat} {now : κ} {job : Job}
    (h : b.jobs[k]? = some (job, .active attempt now)) : Turn.Stands b (.wake k)
  | wait {k attempt turns : Nat} {now : κ} {job : Job}
    (h : b.jobs[k]? = some (job, .active attempt now)) : Turn.Stands b (.wait k turns)

/-- The jobs of a queue and the jobs that wait are those that have not ended, each once, and if one
waits then no permit is left. -/
structure IsOrderly (s : Setup σ κ) (b : Batch σ κ) (queue : List Turn) (waiting : List Nat) :
    Prop where
  distinct : (queue.map Turn.job ++ waiting).Nodup
  stands : ∀ t ∈ queue, t.Stands b
  waits : ∀ k ∈ waiting, ∃ job, b.jobs[k]? = some (job, .waiting)
  covers : ∀ (k : Nat) (job : Job) (p : Progress κ), b.jobs[k]? = some (job, p) →
    (∃ v, p = .ended v) ∨ k ∈ queue.map Turn.job ++ waiting
  free : waiting ≠ [] → s.permits ≤ b.held + queue.countP Turn.isEnter

variable {s : Setup σ κ} {b b' : Batch σ κ} {queue queue' : List Turn} {waiting : List Nat}
  {t t' : Turn} {k : Nat} {job : Job} {p p' : Progress κ}

theorem held_of_set (hk : b.jobs[k]? = some (job, p)) (hjobs : b'.jobs = b.jobs.set k (job, p')) :
    b'.held + p.isActive.toNat = b.held + p'.isActive.toNat := by
  obtain ⟨hlt, hget⟩ := List.getElem?_eq_some_iff.1 hk
  have hpos : p.isActive = true → 0 < b.held := fun hp =>
    List.countP_pos_iff.2 ⟨_, List.mem_of_getElem? hk, hp⟩
  have hset : b'.held = b.held - p.isActive.toNat + p'.isActive.toNat := by
    rw [Batch.held, hjobs, List.countP_set hlt, hget]
    cases p.isActive <;> cases p'.isActive <;> rfl
  cases hp : p.isActive with
  | false => simp [hset, hp]
  | true =>
    have := hpos hp
    rw [hset, hp]
    simp only [Bool.toNat_true]
    omega

theorem getElem?_of_set {k' : Nat} (hne : k' ≠ k) (hjobs : b'.jobs = b.jobs.set k (job, p')) :
    b'.jobs[k']? = b.jobs[k']? := by
  rw [hjobs, List.getElem?_set_ne (Ne.symm hne)]

theorem countP_isEnter_cons (t : Turn) (queue : List Turn) :
    (t :: queue).countP Turn.isEnter = queue.countP Turn.isEnter + t.isEnter.toNat := by
  cases ht : t.isEnter <;> simp [ht]

/-- An entry stands as it did when another job makes a step. -/
theorem Turn.Stands.of_set (h : t.Stands b) (hne : t.job ≠ k)
    (hjobs : b'.jobs = b.jobs.set k (job, p')) : t.Stands b' := by
  have hget := getElem?_of_set hne hjobs
  cases h with
  | enter h => exact .enter (hget.trans h)
  | wake h => exact .wake (hget.trans h)
  | wait h => exact .wait (hget.trans h)

namespace IsOrderly

theorem perm (h : s.IsOrderly b queue waiting) (hperm : queue.Perm queue') :
    s.IsOrderly b queue' waiting where
  distinct := ((hperm.map _).append_right _).nodup_iff.1 h.distinct
  stands t ht := h.stands t (hperm.mem_iff.2 ht)
  waits := h.waits
  covers k job p hk := (h.covers k job p hk).imp_right ((hperm.map _).append_right _).mem_iff.1
  free hw := by rw [← hperm.countP_eq]; exact h.free hw

/-- An empty queue leaves nothing to do. -/
theorem isComplete (h : s.IsOrderly b [] waiting) (hpermits : 0 < s.permits) : b.IsComplete := by
  have hheld : b.held = 0 := by
    refine List.countP_eq_zero.2 fun j hj hactive => ?_
    obtain ⟨k, hk⟩ := List.mem_iff_getElem?.1 hj
    obtain ⟨job, p⟩ := j
    rcases h.covers k job p hk with ⟨v, rfl⟩ | hwaits
    · cases hactive
    · obtain ⟨_, hwaiting⟩ := h.waits k (by simpa using hwaits)
      cases hwaiting.symm.trans hk
      cases hactive
  have hnone : waiting = [] := by
    by_contra hne
    have hfree := h.free hne
    simp only [List.countP_nil] at hfree
    omega
  intro j hj
  obtain ⟨k, hk⟩ := List.mem_iff_getElem?.1 hj
  exact (h.covers k j.1 j.2 hk).resolve_right (by simp [hnone])

/-- The other entries are not of the job of the first one, and neither are the jobs that wait. -/
theorem job_ne (h : s.IsOrderly b (t :: queue) waiting) :
    (∀ u ∈ queue, u.job ≠ t.job) ∧ ∀ k ∈ waiting, k ≠ t.job := by
  have hnot : t.job ∉ queue.map Turn.job ++ waiting := (List.nodup_cons.1 h.distinct).1
  simp only [List.mem_append, List.mem_map, not_or, not_exists, not_and] at hnot
  exact ⟨hnot.1, fun k hk heq => hnot.2 (heq ▸ hk)⟩

/-- The job of an entry makes a step, and stands in the queue again. -/
theorem advance (h : s.IsOrderly b (t :: queue) waiting)
    (hjobs : b'.jobs = b.jobs.set t.job (job, p')) (hjob : t'.job = t.job)
    (hstands : t'.Stands b') (hheld : b.held + t.isEnter.toNat ≤ b'.held + t'.isEnter.toNat) :
    s.IsOrderly b' (t' :: queue) waiting where
  distinct := by simpa [hjob] using h.distinct
  stands u hu := by
    rcases List.mem_cons.1 hu with rfl | hu
    · exact hstands
    · exact (h.stands u (List.mem_cons_of_mem t hu)).of_set (h.job_ne.1 u hu) hjobs
  waits k hk := by
    rw [getElem?_of_set (h.job_ne.2 k hk) hjobs]
    exact h.waits k hk
  covers k job p hk := by
    by_cases hkt : k = t.job
    · exact .inr (by simp [hkt, hjob])
    · rw [getElem?_of_set hkt hjobs] at hk
      simpa [hjob] using h.covers k job p hk
  free hw := by
    have hfree := h.free hw
    rw [countP_isEnter_cons] at hfree ⊢
    omega

/-- The job of an entry ends, and the entry is gone. -/
theorem finish {v : Option (List Double)} (h : s.IsOrderly b (t :: queue) waiting)
    (hjobs : b'.jobs = b.jobs.set t.job (job, .ended v))
    (hfree : waiting ≠ [] → s.permits ≤ b'.held + queue.countP Turn.isEnter) :
    s.IsOrderly b' queue waiting where
  distinct := (List.nodup_cons.1 h.distinct).2
  stands u hu := (h.stands u (List.mem_cons_of_mem t hu)).of_set (h.job_ne.1 u hu) hjobs
  waits k hk := by
    rw [getElem?_of_set (h.job_ne.2 k hk) hjobs]
    exact h.waits k hk
  covers k job' p hk := by
    by_cases hkt : k = t.job
    · rw [hjobs, hkt, List.getElem?_set] at hk
      split at hk
      · split at hk
        · cases hk
          exact .inl ⟨v, rfl⟩
        · cases hk
      · contradiction
    · rw [getElem?_of_set hkt hjobs] at hk
      simpa [hkt] using h.covers k job' p hk
  free := hfree

/-- The job that has waited longest is called to the queue. -/
theorem call {next : Nat} (h : s.IsOrderly b queue (next :: waiting)) :
    s.IsOrderly b (.enter next :: queue) waiting where
  distinct := List.perm_middle.nodup_iff.1 h.distinct
  stands u hu := by
    rcases List.mem_cons.1 hu with rfl | hu
    · obtain ⟨job, hjob⟩ := h.waits next List.mem_cons_self
      exact .enter hjob
    · exact h.stands u hu
  waits k hk := h.waits k (List.mem_cons_of_mem next hk)
  covers k job p hk := (h.covers k job p hk).imp_right List.perm_middle.mem_iff.1
  free _ := by
    have hfree := h.free (List.cons_ne_nil _ _)
    rw [countP_isEnter_cons]
    omega

/-- A job that finds no permit waits. -/
theorem block (h : s.IsOrderly b (.enter k :: queue) waiting) (hheld : s.permits ≤ b.held) :
    s.IsOrderly b queue (waiting ++ [k]) where
  distinct := by
    rw [← List.append_assoc]
    exact (List.perm_append_singleton k _).nodup_iff.2 h.distinct
  stands u hu := h.stands u (List.mem_cons_of_mem _ hu)
  waits j hj := by
    rcases List.mem_append.1 hj with hj | hj
    · exact h.waits j hj
    · cases h.stands _ List.mem_cons_self with
      | enter hk => exact ⟨_, List.mem_singleton.1 hj ▸ hk⟩
  covers j job p hj := by
    refine (h.covers j job p hj).imp_right fun hmem => ?_
    rw [← List.append_assoc]
    exact (List.perm_append_singleton k _).mem_iff.2 hmem
  free _ := Nat.le_add_right_of_le hheld

end IsOrderly

/-! ## What is left to do -/

variable {r : Round σ κ}

/-- The number of turns that the queue has left if no job makes a step. -/
def Round.cost (r : Round σ κ) : Nat := (r.queue.map Turn.cost).sum

theorem cost_push : (r.push t).cost = r.cost + t.cost := by
  simp [Round.cost, Round.push]

theorem batch_release : r.release.batch = r.batch := by
  unfold Round.release
  split <;> rfl

theorem cost_release_le : r.release.cost ≤ r.cost + 1 := by
  unfold Round.release
  split
  · exact Nat.le_succ _
  · rw [cost_push]
    rfl

/-! ## Orderly turns -/

/-- A round is orderly if its queue and its waiting jobs are. -/
def Round.IsOrderly (s : Setup σ κ) (r : Round σ κ) : Prop :=
  s.IsOrderly r.batch r.queue r.waiting

theorem isOrderly_push (h : s.IsOrderly r.batch (t :: r.queue) r.waiting) :
    (r.push t).IsOrderly s :=
  h.perm (List.perm_append_singleton t r.queue).symm

/-- The entry of a job that holds a permit is not one of a job that has none. -/
theorem Turn.Stands.isEnter_eq_false {attempt : Nat} {now : κ} (h : t.Stands b)
    (hk : b.jobs[t.job]? = some (job, .active attempt now)) : t.isEnter = false := by
  cases h with
  | enter hwaiting => cases hwaiting.symm.trans hk
  | wake _ => rfl
  | wait _ => rfl

/-- A job that holds a permit stands in the queue in another way. -/
theorem isOrderly_push_of_active {attempt : Nat} {now : κ}
    (h : s.IsOrderly r.batch (t :: r.queue) r.waiting)
    (hk : r.batch.jobs[t.job]? = some (job, .active attempt now)) (hjob : t'.job = t.job)
    (hstands : t'.Stands r.batch) : (r.push t').IsOrderly s := by
  have hsame : r.batch.jobs = r.batch.jobs.set t.job (job, .active attempt now) := by
    obtain ⟨_, hget⟩ := List.getElem?_eq_some_iff.1 hk
    rw [← hget, List.set_getElem_self]
  refine isOrderly_push (h.advance hsame hjob hstands ?_)
  have henter := (h.stands t List.mem_cons_self).isEnter_eq_false hk
  rw [henter]
  exact Nat.add_le_add_left (Nat.zero_le _) _

/-- A job that ends gives its permit to the one that has waited longest, if any waits. -/
theorem isOrderly_release {attempt : Nat} {now : κ} {v : Option (List Double)}
    (h : s.IsOrderly r.batch (t :: r.queue) r.waiting)
    (hk : r.batch.jobs[t.job]? = some (job, .active attempt now))
    (hjobs : b'.jobs = r.batch.jobs.set t.job (job, .ended v)) :
    ({ r with batch := b' } : Round σ κ).release.IsOrderly s := by
  have hheld : b'.held + 1 = r.batch.held := held_of_set hk hjobs
  have henter := (h.stands t List.mem_cons_self).isEnter_eq_false hk
  unfold Round.release
  split
  · rename_i hwaiting
    exact h.finish hjobs fun hne => absurd hwaiting hne
  · rename_i next rest hwaiting
    have hwaiting : r.waiting = next :: rest := hwaiting
    rw [hwaiting] at h
    refine isOrderly_push ((h.call.perm (List.Perm.swap _ _ _)).finish hjobs fun _ => ?_)
    have hfree := h.free (List.cons_ne_nil _ _)
    rw [countP_isEnter_cons, henter] at hfree
    rw [countP_isEnter_cons]
    simp only [Turn.isEnter, Bool.toNat_true, Bool.toNat_false] at hfree ⊢
    omega

theorem isOrderly_start (jobs : List Job) (state : σ) :
    s.IsOrderly (Batch.start jobs state) ((List.range jobs.length).map .enter) [] where
  distinct := by simpa [Function.comp_def, Turn.job] using List.nodup_range
  stands t ht := by
    obtain ⟨k, hk, rfl⟩ := List.mem_map.1 ht
    have hstart : (Batch.start jobs state : Batch σ κ).jobs[k]? =
        some (jobs.get ⟨k, List.mem_range.1 hk⟩, .waiting) := by
      simp [Batch.start, List.getElem?_eq_getElem (List.mem_range.1 hk)]
    exact .enter hstart
  waits := by simp
  covers k job p hk := by
    obtain ⟨hlt, _⟩ := List.getElem?_eq_some_iff.1 hk
    refine .inr ?_
    simpa [Function.comp_def, Turn.job, Batch.start] using hlt
  free h := absurd rfl h

variable [Span κ]

/-- A job that makes its request goes on, or gives its permit back. -/
theorem isOrderly_request {attempt : Nat} {now : κ}
    (h : s.IsOrderly r.batch (t :: r.queue) r.waiting)
    (hk : r.batch.jobs[t.job]? = some (job, .active attempt now)) :
    (s.request r t.job).IsOrderly s := by
  obtain ⟨hlt, _⟩ := List.getElem?_eq_some_iff.1 hk
  obtain ⟨b', hstep⟩ : ∃ b', s.step? r.batch t.job = some b' := by
    simp only [step?, hk]
    exact ⟨_, rfl⟩
  obtain ⟨_, _, p', hmoved, hmoves, hjobs⟩ := exists_moves_of_step hstep
  cases hmoved.symm.trans hk
  have hget : b'.jobs[t.job]? = some (job, p') := by simp [hjobs, hlt]
  have hheld := held_of_set hk hjobs
  have henter := (h.stands t List.mem_cons_self).isEnter_eq_false hk
  simp only [request, hstep, hget]
  cases hp : p' with
  | waiting => exact absurd hp hmoves.ne_waiting
  | active attempt' now' =>
    subst hp
    refine isOrderly_push (h.advance hjobs rfl (.wake hget) ?_)
    rw [henter]
    simp only [Turn.isEnter, Progress.isActive, Bool.toNat_true, Bool.toNat_false] at hheld ⊢
    omega
  | ended v =>
    subst hp
    exact isOrderly_release h hk hjobs

/-- A job that stands in the queue for a permit takes one, or waits if there is none. -/
theorem isOrderly_enter (h : s.IsOrderly r.batch (.enter k :: r.queue) r.waiting) :
    (s.turn r (.enter k)).IsOrderly s := by
  obtain ⟨job, hk⟩ : ∃ job, r.batch.jobs[k]? = some (job, .waiting) := by
    cases h.stands _ List.mem_cons_self with
    | enter hk => exact ⟨_, hk⟩
  cases hstep : s.step? r.batch k with
  | none =>
    have hheld : s.permits ≤ r.batch.held := by simpa [step?, hk] using hstep
    simp only [turn, hstep]
    exact h.block hheld
  | some b' =>
    obtain ⟨_, _, p', hmoved, hmoves, hjobs⟩ := exists_moves_of_step hstep
    cases hmoved.symm.trans hk
    obtain ⟨rfl, _⟩ := hmoves.of_waiting
    obtain ⟨hlt, _⟩ := List.getElem?_eq_some_iff.1 hk
    have hget : b'.jobs[k]? = some (job, .active 1 Span.zero) := by simp [hjobs, hlt]
    have hheld : b'.held = r.batch.held + 1 := held_of_set hk hjobs
    simp only [turn, hstep]
    split
    · refine isOrderly_push (h.advance hjobs rfl (.wait hget) ?_)
      exact Nat.le_of_eq hheld.symm
    · have hwake : s.IsOrderly b' (.wake k :: r.queue) r.waiting :=
        h.advance hjobs rfl (.wake hget) (Nat.le_of_eq hheld.symm)
      exact isOrderly_request (r := { r with batch := b' }) hwake hget

/-- A turn keeps a round orderly. -/
theorem isOrderly_turn (h : s.IsOrderly r.batch (t :: r.queue) r.waiting) :
    (s.turn r t).IsOrderly s := by
  cases t with
  | enter k => exact isOrderly_enter h
  | wake k =>
    cases h.stands _ List.mem_cons_self with
    | wake hk => exact isOrderly_push_of_active h hk rfl (.wait hk)
  | wait k turns =>
    cases h.stands _ List.mem_cons_self with
    | wait hk =>
      match turns with
      | 0 => exact isOrderly_request h hk
      | 1 => exact isOrderly_request h hk
      | turns + 2 => exact isOrderly_push_of_active h hk rfl (.wait hk)

theorem isOrderly_rounds (limit : Nat) (h : r.IsOrderly s) : (s.rounds limit r).IsOrderly s := by
  induction limit generalizing r with
  | zero => exact h
  | succ limit ih =>
    rw [rounds]
    split
    · exact h
    · rename_i t rest hqueue
      refine ih (isOrderly_turn ?_)
      have horderly : s.IsOrderly r.batch r.queue r.waiting := h
      rwa [hqueue] at horderly

/-! ## The length of a round -/

/-- A request is a step of the job, if it can make one. -/
theorem exists_follow_request :
    ∃ order, s.follow? order r.batch = some (s.request r k).batch ∧
      (s.request r k).cost ≤ r.cost + 4 * order.length := by
  unfold request
  split
  · exact ⟨[], rfl, Nat.le_refl _⟩
  · rename_i b' hstep
    split
    · refine ⟨[k], follow?_singleton.trans hstep, ?_⟩
      rw [cost_push]
      exact Nat.le_refl _
    · refine ⟨[k], ?_, ?_⟩
      · rw [follow?_singleton, hstep, batch_release]
      · have hcost := cost_release_le (r := { r with batch := b' })
        have hsame : ({ r with batch := b' } : Round σ κ).cost = r.cost := rfl
        simp only [List.length_singleton]
        omega

/-- A turn takes one off what its entry costs, and a step of a job puts at most four back. -/
theorem exists_follow_turn :
    ∃ order, s.follow? order r.batch = some (s.turn r t).batch ∧
      (s.turn r t).cost + 1 ≤ r.cost + t.cost + 4 * order.length := by
  cases t with
  | enter k =>
    simp only [turn]
    split
    · rename_i b' hstep
      have hsame : ({ r with batch := b' } : Round σ κ).cost = r.cost := rfl
      split
      · refine ⟨[k], follow?_singleton.trans hstep, ?_⟩
        simp only [cost_push, hsame, Turn.cost, requestTurns, List.length_singleton]
        omega
      · obtain ⟨order, hfollow, hcost⟩ :=
          exists_follow_request (s := s) (r := { r with batch := b' }) (k := k)
        refine ⟨k :: order, ?_, ?_⟩
        · rw [follow?_cons, hstep]
          exact hfollow
        · simp only [Turn.cost, List.length_cons]
          omega
    · exact ⟨[], rfl, Nat.le_refl _⟩
  | wake k =>
    refine ⟨[], rfl, ?_⟩
    simp only [turn, cost_push]
    exact Nat.le_refl _
  | wait k turns =>
    have hrequest : ∃ order, s.follow? order r.batch = some (s.request r k).batch ∧
        (s.request r k).cost + 1 ≤ r.cost + 1 + 4 * order.length := by
      obtain ⟨order, hfollow, hcost⟩ := exists_follow_request (s := s) (r := r) (k := k)
      exact ⟨order, hfollow, by omega⟩
    match turns with
    | 0 => exact hrequest
    | 1 => exact hrequest
    | turns + 2 =>
      refine ⟨[], rfl, ?_⟩
      simp only [turn, cost_push, Turn.cost]
      omega

/-- Turns make a run of steps.  They end with an empty queue unless there are too few of them for
the steps that they make. -/
theorem exists_follow_rounds (limit : Nat) :
    ∃ order, s.follow? order r.batch = some (s.rounds limit r).batch ∧
      ((s.rounds limit r).queue = [] ∨ limit ≤ r.cost + 4 * order.length) := by
  induction limit generalizing r with
  | zero => exact ⟨[], rfl, .inr (Nat.zero_le _)⟩
  | succ limit ih =>
    rw [rounds]
    split
    · rename_i hqueue
      exact ⟨[], rfl, .inl hqueue⟩
    · rename_i t rest hqueue
      obtain ⟨first, hfirst, hcost⟩ :=
        exists_follow_turn (s := s) (r := { r with queue := rest }) (t := t)
      obtain ⟨order, horder, hend⟩ := ih (r := s.turn { r with queue := rest } t)
      have hsum : r.cost = ({ r with queue := rest } : Round σ κ).cost + t.cost := by
        simp [Round.cost, hqueue, Nat.add_comm]
      refine ⟨first ++ order, follow_append hfirst horder, hend.imp_right fun hlimit => ?_⟩
      rw [List.length_append]
      omega

/-! ## Runs by turns -/

/-- A run by turns is one of the runs that the permits allow.  All its jobs end, unless it makes
more steps than the limit on the turns allows. -/
theorem exists_follow_run (hpermits : 0 < s.permits) (jobs : List Job) (state : σ) :
    ∃ order, s.follow? order (Batch.start jobs state) = some (s.run jobs state).batch ∧
      ((s.run jobs state).batch.IsComplete ∨ turnLimit ≤ jobs.length + 4 * order.length) := by
  let first : Round σ κ := ⟨Batch.start jobs state, (List.range jobs.length).map .enter, [], 0⟩
  have hfirst : first.IsOrderly s := isOrderly_start jobs state
  have hcost : first.cost = jobs.length := by
    simp only [first, Round.cost, List.map_map, Function.comp_def, Turn.cost, List.map_const',
      List.length_range, List.sum_replicate_nat, Nat.mul_one]
  obtain ⟨order, horder, hend⟩ := exists_follow_rounds (s := s) (r := first) turnLimit
  refine ⟨order, horder, hend.imp (fun hqueue => ?_) fun hlimit => hcost ▸ hlimit⟩
  have hlast : s.IsOrderly (s.run jobs state).batch (s.run jobs state).queue
      (s.run jobs state).waiting := isOrderly_rounds turnLimit hfirst
  have hempty : (s.run jobs state).queue = [] := hqueue
  rw [hempty] at hlast
  exact hlast.isComplete hpermits

end CodeCatalog.Setup
