import Skt.Lib.CString
import Skt.Lib.Machine
import Skt.Lib.Tally

/-!
# `HttpConnectionPool`

Threads that call `getConnection` and let go of what it has returned. A connection is
a number, in the order in which they are made. What is done under the lock is one step,
and so is each access to `m_total` and each `delete`. Whether a connection is still
connected, and what the clock says, is up to the environment.
-/

namespace Skt

namespace Http

namespace HttpConnectionPool

open Lib Lib.CString

/-- `m_createTime` and `m_request` of a connection. -/
structure Conn where
  createTime : UInt64
  request : UInt64
  deriving DecidableEq, Repr

/-- Nothing sets `m_createTime`. -/
def Conn.new : Conn := ⟨0, 0⟩

/-- `m_maxAliveTime` and `m_maxRequest`. -/
structure Config where
  maxAliveTime : UInt32
  maxRequest : UInt32

/-- Where a thread is. -/
inductive Phase
  | idle
  /-- in `getConnection`, deleting `invalid_conns`, of which there were `size` -/
  | discard (invalid : List ℕ) (size : ℕ) (ptr : Option ℕ)
  /-- behind `m_total -= invalid_conns.size()` -/
  | chosen (ptr : Option ℕ)
  /-- about to count a new connection -/
  | created (ptr : ℕ)
  /-- in `ReleasePtr`, behind `++ptr->m_request` -/
  | released (ptr : ℕ)
  /-- about to delete the connection -/
  | remove (ptr : ℕ)
  /-- about to count it out -/
  | uncount
  /-- about to put it back -/
  | give (ptr : ℕ)
  deriving DecidableEq, Repr

/-- The connections that are in the hands of a call. -/
def Phase.hand : Phase → List ℕ
  | .idle => []
  | .discard invalid _ ptr => invalid ++ ptr.toList
  | .chosen ptr => ptr.toList
  | .created ptr => [ptr]
  | .released ptr => [ptr]
  | .remove ptr => [ptr]
  | .uncount => []
  | .give ptr => [ptr]

/-- How many connections `m_total` still counts for a call. -/
def Phase.weight : Phase → ℕ
  | .idle => 0
  | .discard _ size ptr => size + ptr.toList.length
  | .chosen ptr => ptr.toList.length
  | .created _ => 0
  | .released _ => 1
  | .remove _ => 1
  | .uncount => 1
  | .give _ => 1

/-- `conns` is `m_conns`; `held` are the connections that clients have; `deleted` is there
for the proofs only. -/
structure Pool where
  conns : List ℕ
  held : List ℕ
  total : ℤ
  next : ℕ
  info : ℕ → Conn
  threads : ℕ → Phase
  deleted : List ℕ

/-- A thread's next step, with what it finds out. -/
inductive Label
  | getConnection (t : ℕ) (connected : ℕ → Bool) (now : UInt64)
  | delete (t : ℕ)
  | subtract (t : ℕ)
  | fail (t : ℕ)
  | connect (t : ℕ)
  | count (t : ℕ)
  | hand (t : ℕ)
  | release (t : ℕ) (ptr : ℕ)
  | check (t : ℕ) (connected : Bool) (now : UInt64)
  | uncount (t : ℕ)
  | give (t : ℕ)

namespace Pool

variable (cfg : Config)

def moveTo (t : ℕ) (p : Phase) (s : Pool) : Pool :=
  { s with threads := Function.update s.threads t p }

/-- The loop over `m_conns`: the connections to be deleted, the one that is taken, and
those that stay. -/
def scan (info : ℕ → Conn) (connected : ℕ → Bool) (now : UInt64) :
    List ℕ → List ℕ × Option ℕ × List ℕ
  | [] => ([], none, [])
  | c :: cs =>
      if !connected c || (info c).createTime + cfg.maxAliveTime.toUInt64 > now then
        let (invalid, ptr, rest) := scan info connected now cs
        (c :: invalid, ptr, rest)
      else ([], some c, cs)

/-- Whether `ReleasePtr` deletes a connection. -/
def worn (c : Conn) (connected : Bool) (now : UInt64) : Bool :=
  !connected || c.createTime + cfg.maxAliveTime.toUInt64 ≥ now ||
    c.request > cfg.maxRequest.toUInt64

/-- The step of a thread in phase `p`. -/
def stepIn (s : Pool) : Phase → Label → Option Pool
  | .idle, .getConnection t connected now =>
      let (invalid, ptr, rest) := scan cfg s.info connected now s.conns
      some ({ s with conns := rest }.moveTo t (.discard invalid invalid.length ptr))
  | .discard (c :: invalid) size ptr, .delete t =>
      some ({ s with deleted := c :: s.deleted }.moveTo t (.discard invalid size ptr))
  | .discard [] size ptr, .subtract t =>
      some ({ s with total := toInt32 (s.total - size) }.moveTo t (.chosen ptr))
  | .chosen none, .fail t => some (s.moveTo t .idle)
  | .chosen none, .connect t =>
      some ({ s with next := s.next + 1,
                     info := Function.update s.info s.next .new }.moveTo t (.created s.next))
  | .created ptr, .count t =>
      some ({ s with total := toInt32 (s.total + 1) }.moveTo t (.chosen (some ptr)))
  | .chosen (some ptr), .hand t => some ({ s with held := ptr :: s.held }.moveTo t .idle)
  | .idle, .release t ptr =>
      if ptr ∈ s.held then
        let conn := { s.info ptr with request := (s.info ptr).request + 1 }
        some ({ s with held := s.held.erase ptr,
                       info := Function.update s.info ptr conn }.moveTo t (.released ptr))
      else none
  | .released ptr, .check t connected now =>
      some (s.moveTo t (if worn cfg (s.info ptr) connected now then .remove ptr else .give ptr))
  | .remove ptr, .delete t =>
      some ({ s with deleted := ptr :: s.deleted }.moveTo t .uncount)
  | .uncount, .uncount t =>
      some ({ s with total := toInt32 (s.total - 1) }.moveTo t .idle)
  | .give ptr, .give t => some ({ s with conns := s.conns ++ [ptr] }.moveTo t .idle)
  | _, _ => none

/-- The thread that takes a step. -/
def thread : Label → ℕ
  | .getConnection t _ _ => t
  | .delete t => t
  | .subtract t => t
  | .fail t => t
  | .connect t => t
  | .count t => t
  | .hand t => t
  | .release t _ => t
  | .check t _ _ => t
  | .uncount t => t
  | .give t => t

def step (n : ℕ) (s : Pool) (l : Label) : Option Pool :=
  if thread l < n then stepIn cfg s (s.threads (thread l)) l else none

/-- An empty pool and `n` threads. -/
def machine (n : ℕ) : Machine Pool Label where
  start := { conns := [], held := [], total := 0, next := 0, info := fun _ => .new,
             threads := fun _ => .idle, deleted := [] }
  step := step cfg n

/-! ## Where a connection is -/

/-- Where `c` is besides the hands of a call. -/
def places (s : Pool) (c : ℕ) : ℕ := s.conns.count c + s.held.count c + s.deleted.count c

/-- How often `c` was made. -/
def made (next c : ℕ) : ℕ := if c < next then 1 else 0

/-- Every connection that was made is in one place, and `m_total` counts the ones that
are pooled and held, and those that calls have in hand. -/
structure Sound (n : ℕ) (s : Pool) : Prop where
  once : ∀ c, s.places c + ∑ t ∈ Finset.range n, (s.threads t).hand.count c = made s.next c
  total : s.total = toInt32 ((s.conns.length + s.held.length +
    ∑ t ∈ Finset.range n, (s.threads t).weight : ℕ) : ℤ)

variable {cfg} {n : ℕ} {s s' : Pool} {t : ℕ} {p : Phase}

/-- What a step of thread `t` into phase `p` has to keep. -/
theorem Sound.of_step (h : Sound n s) (ht : t < n)
    (hthreads : s'.threads = Function.update s.threads t p) (d : ℤ)
    (hplaces : ∀ c, s'.places c + p.hand.count c + made s.next c =
      s.places c + (s.threads t).hand.count c + made s'.next c)
    (hweight : ((s'.conns.length + s'.held.length + p.weight : ℕ) : ℤ) =
      (s.conns.length + s.held.length + (s.threads t).weight : ℕ) + d)
    (htotal : d = 0 ∧ s'.total = s.total ∨ s'.total = toInt32 (s.total + d)) : Sound n s' := by
  constructor
  · intro c
    have hsum := sum_update ht (fun q : Phase => q.hand.count c) s.threads p
    have honce := h.once c
    have hp := hplaces c
    rw [hthreads]
    omega
  · have hsum := sum_update ht Phase.weight s.threads p
    have htotal' : s'.total = toInt32 (s.total + d) := by
      rcases htotal with ⟨rfl, heq⟩ | heq
      · rw [heq, h.total, toInt32_add, add_zero]
      · exact heq
    rw [htotal', h.total, toInt32_add, hthreads]
    congr 1
    push_cast at hweight ⊢
    have hsum' : ((∑ v ∈ Finset.range n, (Function.update s.threads t p v).weight : ℕ) : ℤ) +
        ((s.threads t).weight : ℕ) =
          (∑ v ∈ Finset.range n, (s.threads v).weight : ℕ) + (p.weight : ℕ) := by
      exact_mod_cast hsum
    push_cast at hsum'
    omega

/-- The loop over `m_conns` loses nothing. -/
theorem scan_perm (info : ℕ → Conn) (connected : ℕ → Bool) (now : UInt64) :
    ∀ {conns invalid : List ℕ} {ptr : Option ℕ} {rest : List ℕ},
      scan cfg info connected now conns = (invalid, ptr, rest) →
        (invalid ++ ptr.toList ++ rest).Perm conns
  | [], _, _, _, hscan => by
      cases hscan
      exact List.Perm.refl _
  | c :: cs, _, _, _, hscan => by
      rw [scan] at hscan
      split_ifs at hscan
      · cases hscan
        exact (scan_perm info connected now rfl).cons c
      · cases hscan
        exact List.Perm.refl _

theorem Sound.start : Sound n (machine cfg n).start where
  once c := by simp [machine, places, made, Phase.hand]
  total := by simp [machine, Phase.weight, toInt32]

theorem made_succ (next c : ℕ) : made (next + 1) c = made next c + [next].count c := by
  simp only [made, List.count_singleton, beq_iff_eq]
  split_ifs <;> omega

theorem Sound.stepIn {l : Label} (h : Sound n s) (ht : thread l < n)
    (hstep : stepIn cfg s (s.threads (thread l)) l = some s') : Sound n s' := by
  generalize hp : s.threads (thread l) = p at hstep
  unfold Pool.stepIn at hstep
  split at hstep
  case h_1 t connected now =>
    obtain ⟨invalid, ptr, rest, hscan⟩ : ∃ invalid ptr rest,
        scan cfg s.info connected now s.conns = (invalid, ptr, rest) := ⟨_, _, _, rfl⟩
    rw [hscan] at hstep
    obtain rfl := Option.some.inj hstep
    have hperm := scan_perm s.info connected now hscan
    have hlen := hperm.length_eq
    refine h.of_step ht rfl 0 ?_ ?_ (.inl ⟨rfl, rfl⟩)
    · intro c
      have hcount := hperm.count_eq c
      simp only [hp, places, moveTo, Phase.hand, List.count_append, List.count_nil] at hcount ⊢
      omega
    · simp only [hp, moveTo, Phase.weight, List.length_append] at hlen ⊢
      omega
  case h_2 c invalid size ptr t =>
    obtain rfl := Option.some.inj hstep
    refine h.of_step ht rfl 0 ?_ ?_ (.inl ⟨rfl, rfl⟩)
    · intro d
      simp only [hp, places, moveTo, Phase.hand, List.count_append, List.count_cons]
      omega
    · simp only [hp, moveTo, Phase.weight]
      omega
  case h_3 size ptr t =>
    obtain rfl := Option.some.inj hstep
    refine h.of_step ht rfl (-size) ?_ ?_ (.inr rfl)
    · intro c
      simp only [hp, places, moveTo, Phase.hand, List.nil_append]
    · simp only [hp, moveTo, Phase.weight]
      omega
  case h_4 t =>
    obtain rfl := Option.some.inj hstep
    refine h.of_step ht rfl 0 ?_ ?_ (.inl ⟨rfl, rfl⟩)
    · intro c
      simp only [hp, places, moveTo, Phase.hand, Option.toList_none]
    · simp only [hp, moveTo, Phase.weight, Option.toList_none, List.length_nil]
      omega
  case h_5 t =>
    obtain rfl := Option.some.inj hstep
    refine h.of_step ht rfl 0 ?_ ?_ (.inl ⟨rfl, rfl⟩)
    · intro c
      simp only [hp, places, moveTo, Phase.hand, Option.toList_none, made_succ, List.count_nil]
      omega
    · simp only [hp, moveTo, Phase.weight, Option.toList_none, List.length_nil]
      omega
  case h_6 ptr t =>
    obtain rfl := Option.some.inj hstep
    refine h.of_step ht rfl 1 ?_ ?_ (.inr rfl)
    · intro c
      simp only [hp, places, moveTo, Phase.hand, Option.toList_some]
    · simp only [hp, moveTo, Phase.weight, Option.toList_some, List.length_singleton]
      omega
  case h_7 ptr t =>
    obtain rfl := Option.some.inj hstep
    refine h.of_step ht rfl 0 ?_ ?_ (.inl ⟨rfl, rfl⟩)
    · intro c
      simp only [hp, places, moveTo, Phase.hand, Option.toList_some, List.count_cons,
        List.count_nil]
      omega
    · simp only [hp, moveTo, Phase.weight, Option.toList_some, List.length_cons, List.length_nil]
      omega
  case h_8 t ptr =>
    split_ifs at hstep with hmem
    obtain rfl := Option.some.inj hstep
    have hperm := List.perm_cons_erase hmem
    have hlen := hperm.length_eq
    refine h.of_step ht rfl 0 ?_ ?_ (.inl ⟨rfl, rfl⟩)
    · intro c
      have hcount := hperm.count_eq c
      simp only [hp, places, moveTo, Phase.hand, List.count_cons, List.count_nil] at hcount ⊢
      omega
    · simp only [hp, moveTo, Phase.weight, List.length_cons] at hlen ⊢
      omega
  case h_9 ptr t connected now =>
    obtain rfl := Option.some.inj hstep
    refine h.of_step ht rfl 0 ?_ ?_ (.inl ⟨rfl, rfl⟩)
    · intro c
      simp only [hp, places, moveTo]
      split_ifs <;> rfl
    · simp only [hp, moveTo]
      split_ifs <;> simp only [Phase.weight, add_zero]
  case h_10 ptr t =>
    obtain rfl := Option.some.inj hstep
    refine h.of_step ht rfl 0 ?_ ?_ (.inl ⟨rfl, rfl⟩)
    · intro c
      simp only [hp, places, moveTo, Phase.hand, List.count_cons, List.count_nil]
      omega
    · simp only [hp, moveTo, Phase.weight, add_zero]
  case h_11 t =>
    obtain rfl := Option.some.inj hstep
    refine h.of_step ht rfl (-1) ?_ ?_ (.inr rfl)
    · intro c
      simp only [hp, places, moveTo, Phase.hand]
    · simp only [hp, moveTo, Phase.weight]
      omega
  case h_12 ptr t =>
    obtain rfl := Option.some.inj hstep
    refine h.of_step ht rfl 0 ?_ ?_ (.inl ⟨rfl, rfl⟩)
    · intro c
      simp only [hp, places, moveTo, Phase.hand, List.count_append, List.count_nil]
      omega
    · simp only [hp, moveTo, Phase.weight, List.length_append, List.length_singleton]
      omega
  case h_13 => exact absurd hstep (by simp)

theorem Sound.step {l : Label} (h : Sound n s) (hstep : step cfg n s l = some s') :
    Sound n s' := by
  unfold Pool.step at hstep
  split_ifs at hstep with ht
  exact h.stepIn ht hstep

theorem Sound.of_reachable (h : (machine cfg n).Reachable (fun _ _ => True) s) : Sound n s :=
  h.invariant Sound.start fun hsound _ hstep => hsound.step hstep

/-! ## One owner -/

/-- In no call's hands. -/
def Untouched (n : ℕ) (s : Pool) (c : ℕ) : Prop := ∀ t, t < n → c ∉ (s.threads t).hand

/-- In the hands of one call, once. -/
def InCall (n : ℕ) (s : Pool) (c : ℕ) : Prop :=
  ∃ t, t < n ∧ (s.threads t).hand.count c = 1 ∧
    ∀ u, u < n → u ≠ t → c ∉ (s.threads u).hand

theorem untouched_of_sum {c : ℕ}
    (h : ∑ t ∈ Finset.range n, (s.threads t).hand.count c = 0) : Untouched n s c :=
  fun t ht => List.count_eq_zero.mp (Finset.sum_eq_zero_iff.mp h t (Finset.mem_range.mpr ht))

theorem inCall_of_sum {c : ℕ}
    (h : ∑ t ∈ Finset.range n, (s.threads t).hand.count c = 1) : InCall n s c := by
  obtain ⟨t, ht, hone, hother⟩ := exists_of_sum_eq_one h
  exact ⟨t, ht, hone, fun u hu hne => List.count_eq_zero.mp (hother u hu hne)⟩

theorem made_le_one (next c : ℕ) : made next c ≤ 1 := by
  unfold made
  split_ifs <;> omega

/-- A live connection is pooled, held, or in the hands of a call. -/
theorem Sound.live (h : Sound n s) {c : ℕ} (hc : c < s.next) (hlive : c ∉ s.deleted) :
    (s.conns.count c = 1 ∧ c ∉ s.held ∧ Untouched n s c) ∨
      (c ∉ s.conns ∧ s.held.count c = 1 ∧ Untouched n s c) ∨
      (c ∉ s.conns ∧ c ∉ s.held ∧ InCall n s c) := by
  have honce := h.once c
  have hdeleted := List.count_eq_zero.mpr hlive
  rw [places, hdeleted, made, if_pos hc] at honce
  simp only [← List.count_eq_zero (a := c)]
  by_cases hconns : s.conns.count c = 1
  · exact .inl ⟨hconns, by omega, untouched_of_sum (by omega)⟩
  by_cases hheld : s.held.count c = 1
  · exact .inr (.inl ⟨by omega, hheld, untouched_of_sum (by omega)⟩)
  · exact .inr (.inr ⟨by omega, by omega, inCall_of_sum (by omega)⟩)

/-- A deleted connection was deleted once, and is nowhere else. -/
theorem Sound.gone (h : Sound n s) {c : ℕ} (hc : c ∈ s.deleted) :
    s.deleted.count c = 1 ∧ c ∉ s.conns ∧ c ∉ s.held ∧ Untouched n s c := by
  have honce := h.once c
  have hle := made_le_one s.next c
  have hpos := List.count_pos_iff.mpr hc
  rw [places] at honce
  refine ⟨by omega, ?_, ?_, untouched_of_sum (by omega)⟩
  · exact List.count_eq_zero.mp (by omega)
  · exact List.count_eq_zero.mp (by omega)

theorem Sound.total_idle (h : Sound n s) (hidle : ∀ t, t < n → s.threads t = .idle) :
    s.total = toInt32 ((s.conns.length + s.held.length : ℕ) : ℤ) := by
  have hzero : ∑ t ∈ Finset.range n, (s.threads t).weight = 0 := by
    apply Finset.sum_eq_zero
    intro t ht
    rw [hidle t (Finset.mem_range.mp ht), Phase.weight]
  rw [h.total, hzero, add_zero]

/-- **One owner.** However the calls interleave and whatever the sockets and the clock do:
a connection that was made and not deleted is in `m_conns` once, held by one client, or
on its way between the two in one call; it is deleted at most once, and then nobody has it;
and when no call is under way `m_total` is the number of connections pooled and held. -/
theorem one_owner (cfg : Config) (n : ℕ) {s : Pool}
    (h : (machine cfg n).Reachable (fun _ _ => True) s) :
    (∀ c, c < s.next → c ∉ s.deleted →
      (s.conns.count c = 1 ∧ c ∉ s.held ∧ Untouched n s c) ∨
        (c ∉ s.conns ∧ s.held.count c = 1 ∧ Untouched n s c) ∨
        (c ∉ s.conns ∧ c ∉ s.held ∧ InCall n s c)) ∧
      s.deleted.Nodup ∧
      (∀ c, c ∈ s.deleted → c ∉ s.conns ∧ c ∉ s.held ∧ Untouched n s c) ∧
      ((∀ t, t < n → s.threads t = .idle) →
        s.total = toInt32 ((s.conns.length + s.held.length : ℕ) : ℤ) ∧
          (s.conns.length + s.held.length ≤ 2147483647 →
            s.total = s.conns.length + s.held.length)) := by
  have hsound := Sound.of_reachable h
  refine ⟨fun c => hsound.live, ?_, fun c hc => (hsound.gone hc).2,
    fun hidle => ⟨hsound.total_idle hidle, fun hle => ?_⟩⟩
  case refine_2 =>
    rw [hsound.total_idle hidle, toInt32_of_le (by omega) (by omega), Nat.cast_add]
  rw [List.nodup_iff_count_le_one]
  intro c
  by_cases hc : c ∈ s.deleted
  · exact (hsound.gone hc).1.le
  · rw [List.count_eq_zero.mpr hc]
    exact Nat.zero_le 1

/-- What a thread does to get a new connection. -/
def connectBy (t : ℕ) : List Label :=
  [.getConnection t (fun _ => true) 5, .subtract t, .connect t, .count t, .hand t]

/-- Of three connections one is put back, one stays with its client and one is deleted. -/
theorem one_owner_three :
    ∃ s, (machine ⟨0, 10⟩ 2).Reachable (fun _ _ => True) s ∧ s.conns = [0] ∧ s.held = [1] ∧
      s.deleted = [2] ∧ Untouched 2 s 2 ∧ s.total = 2 := by
  obtain ⟨s, h, hconns, hheld, hdeleted, hidle⟩ :
      ∃ s, (machine ⟨0, 10⟩ 2).Reachable (fun _ _ => True) s ∧ s.conns = [0] ∧ s.held = [1] ∧
        s.deleted = [2] ∧ ∀ t, t < 2 → s.threads t = .idle :=
    Lib.Machine.exists_of_exec
      (connectBy 0 ++ connectBy 1 ++ connectBy 0 ++
        [.release 0 0, .release 1 2, .check 1 false 5, .check 0 true 5, .delete 1, .give 0,
          .uncount 1])
      (by decide)
  obtain ⟨_, _, hgone, htotal⟩ := one_owner ⟨0, 10⟩ 2 h
  refine ⟨s, h, hconns, hheld, hdeleted, (hgone 2 (by simp [hdeleted])).2.2, ?_⟩
  rw [(htotal hidle).2 (by simp [hconns, hheld]), hconns, hheld]
  rfl

end Pool

end HttpConnectionPool

end Http

end Skt
