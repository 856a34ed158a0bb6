import Skt.FdManager.Model
import Skt.Lib.Machine

/-!
# `O_NONBLOCK` for the user and for the kernel

A managed socket is nonblocking for the kernel. What the user has asked for is kept in
its `FdCtx` and put in place of the kernel's flag when the user asks for the flags. The
calls of `hook.cpp` that touch the one or the other, in any order.

`asked` is there for the proofs only: what the last `F_SETFL` or `FIONBIO` on a file
has asked for.
-/

namespace Skt

namespace Nonblock

open Lib FdManager

/-! ## The kernel -/

def O_NONBLOCK : BitVec 32 := 0x800#32

/-- The flags that `F_SETFL` changes: `O_APPEND`, `O_NONBLOCK`, `O_ASYNC`, `O_DIRECT` and
`O_NOATIME`. -/
def setflMask : BitVec 32 := 0x46c00#32

/-- `flags & O_NONBLOCK`, as a `bool`. -/
def nonblock (flags : BitVec 32) : Bool := flags &&& O_NONBLOCK ≠ 0

/-- An open file. -/
structure File where
  isSocket : Bool
  flags : BitVec 32
  deriving DecidableEq

/-- `fcntl_f(fd, F_SETFL, arg)`. -/
def File.setfl (arg : BitVec 32) (f : File) : File :=
  { f with flags := (f.flags &&& ~~~setflMask) ||| (arg &&& setflMask) }

/-- `ioctl_f(fd, FIONBIO, &value)`. -/
def File.fionbio (value : BitVec 32) (f : File) : File :=
  { f with flags := if value = 0 then f.flags &&& ~~~O_NONBLOCK else f.flags ||| O_NONBLOCK }

/-! ## Contexts -/

inductive TimeoutType
  | SO_RCVTIMEO
  | SO_SNDTIMEO
  deriving DecidableEq, Repr

structure FdCtx where
  isInit : Bool
  isSocket : Bool
  sysNonblock : Bool
  userNonblock : Bool
  isClosed : Bool
  recvTimeout : UInt64
  sendTimeout : UInt64
  deriving DecidableEq

namespace FdCtx

/-- The constructor with `FdCtx::init`, and the file behind it; `fstat` fails where
there is none. -/
def init : Option File → FdCtx × Option File
  | none => ({ isInit := false, isSocket := false, sysNonblock := false, userNonblock := false,
               isClosed := false, recvTimeout := -1, sendTimeout := -1 }, none)
  | some f =>
      ({ isInit := true, isSocket := f.isSocket, sysNonblock := f.isSocket, userNonblock := false,
         isClosed := false, recvTimeout := -1, sendTimeout := -1 },
        if f.isSocket && !nonblock f.flags then some (f.setfl (f.flags ||| O_NONBLOCK))
        else some f)

def setTimeout (type : TimeoutType) (v : UInt64) (ctx : FdCtx) : FdCtx :=
  match type with
  | .SO_RCVTIMEO => { ctx with recvTimeout := v }
  | .SO_SNDTIMEO => { ctx with sendTimeout := v }

end FdCtx

/-! ## The calls -/

structure State where
  files : ℕ → Option File
  datas : Datas FdCtx
  asked : ℕ → Bool

namespace State

/-- `FdMgr::GetInstance()->get(fd)`. -/
def ctx (s : State) (fd : ℕ) : Option FdCtx := (lookup s.datas fd false).join

/-- The context, where the call goes on with it: neither closed nor of another file. -/
def socketCtx (s : State) (fd : ℕ) : Option FdCtx :=
  (s.ctx fd).filter fun c => !c.isClosed && c.isSocket

def setCtx (fd : ℕ) (c : FdCtx) (s : State) : State :=
  { s with datas := s.datas.set fd (some c) }

/-- A system call that changes a file, or fails without one. -/
def onFile (fd : ℕ) (f : File → File) (s : State) : State :=
  { s with files := Function.update s.files fd ((s.files fd).map f) }

/-- The end of `FdMgr::GetInstance()->get(fd, true)`, with what the lookup has found. -/
def manageWith (fd : ℕ) (s : State) : Option (Option FdCtx) → State
  | some _ => s
  | none =>
      { s with datas := create s.datas fd (FdCtx.init (s.files fd)).1,
               files := Function.update s.files fd (FdCtx.init (s.files fd)).2 }

def manage (fd : ℕ) (s : State) : State := s.manageWith fd (lookup s.datas fd true)

/-- The kernel has opened a socket. -/
def opened (fd : ℕ) (flags : BitVec 32) (s : State) : State :=
  { s with files := Function.update s.files fd (some ⟨true, flags⟩),
           asked := Function.update s.asked fd false }

/-- `fcntl_f(fd, F_SETFL, arg)`; the kernel may refuse the flags. -/
def fcntlSetflF (fd : ℕ) (arg : BitVec 32) (refused : Bool) (s : State) : State :=
  if refused then s else s.onFile fd (File.setfl arg)

/-- The end of `fcntl(fd, F_SETFL, arg)`, with the context of a socket if there is one. -/
def setflWith (fd : ℕ) (arg : BitVec 32) (refused : Bool) (s : State) : Option FdCtx → State
  | none => s.fcntlSetflF fd arg refused
  | some c =>
      (s.setCtx fd { c with userNonblock := nonblock arg }).fcntlSetflF fd
        (if c.sysNonblock then arg ||| O_NONBLOCK else arg &&& ~~~O_NONBLOCK) refused

def fcntlSetfl (fd : ℕ) (arg : BitVec 32) (refused : Bool) (s : State) : State :=
  s.setflWith fd arg refused (s.socketCtx fd)

/-- `fcntl_f(fd, F_GETFL)`; `-1` where there is no file. -/
def fcntlGetflF (fd : ℕ) (s : State) : BitVec 32 :=
  ((s.files fd).map File.flags).getD (-1)

/-- The end of `fcntl(fd, F_GETFL)`, where the kernel has returned `arg`. -/
def getflWith (arg : BitVec 32) : Option FdCtx → BitVec 32
  | none => arg
  | some c => if c.userNonblock then arg ||| O_NONBLOCK else arg &&& ~~~O_NONBLOCK

def fcntlGetfl (fd : ℕ) (s : State) : BitVec 32 := getflWith (s.fcntlGetflF fd) (s.socketCtx fd)

/-- The end of `ioctl(fd, FIONBIO, &value)`. -/
def fionbioWith (fd : ℕ) (value : BitVec 32) (s : State) : Option FdCtx → State
  | none => s.onFile fd (File.fionbio value)
  | some c => (s.setCtx fd { c with userNonblock := value ≠ 0 }).onFile fd (File.fionbio value)

def ioctlFionbio (fd : ℕ) (value : BitVec 32) (s : State) : State :=
  s.fionbioWith fd value (s.socketCtx fd)

/-- `setsockopt` with one of the timeouts, which `tv_sec` and `tv_usec` give. -/
def timeoutWith (fd : ℕ) (type : TimeoutType) (sec usec : ℤ) (s : State) : Option FdCtx → State
  | none => s
  | some c => s.setCtx fd (c.setTimeout type (UInt64.ofInt (sec * 1000 + usec.tdiv 1000)))

def setsockopt (hooked : Bool) (fd : ℕ) (type : TimeoutType) (sec usec : ℤ) (s : State) : State :=
  if hooked then s.timeoutWith fd type sec usec (s.ctx fd) else s

end State

/-- A call; `hooked` is `t_hook_enable`. -/
inductive Label
  | socket (hooked : Bool) (fd : ℕ) (flags : BitVec 32)
  | accept (fd : ℕ) (flags : BitVec 32)
  | setfl (fd : ℕ) (arg : BitVec 32) (refused : Bool)
  | getfl (fd : ℕ)
  | fionbio (fd : ℕ) (value : BitVec 32)
  | setsockopt (hooked : Bool) (fd : ℕ) (type : TimeoutType) (sec usec : ℤ)

namespace State

def step (s : State) : Label → Option State
  | .socket hooked fd flags =>
      if s.files fd = none then
        some (if hooked then (s.opened fd flags).manage fd else s.opened fd flags)
      else none
  | .accept fd flags =>
      if s.files fd = none then some ((s.opened fd flags).manage fd) else none
  | .setfl fd arg refused =>
      some { s.fcntlSetfl fd arg refused with asked := Function.update s.asked fd (nonblock arg) }
  | .getfl _ => some s
  | .fionbio fd value =>
      some { s.ioctlFionbio fd value with asked := Function.update s.asked fd (value ≠ 0) }
  | .setsockopt hooked fd type sec usec => some (s.setsockopt hooked fd type sec usec)

/-- No socket yet; other files may be open. -/
def machine (files : ℕ → Option File) : Machine State Label where
  start := { files, datas := FdManager.new, asked := fun _ => false }
  step := step

/-- **Both views** of a managed socket: it is nonblocking for the kernel, and for the
user if they have asked for it. -/
def TwoViews (s : State) : Prop :=
  ∀ fd c, s.ctx fd = some c → c.isSocket = true →
    (s.files fd).any (fun f => nonblock f.flags) = true ∧
      (nonblock (s.fcntlGetfl fd) = true ↔ s.asked fd = true)

/-- No `FIONBIO` makes a managed socket blocking, and the table of contexts stays below
`2^31` entries. -/
def Kept (s : State) : Label → Prop
  | .socket _ fd _ => fd < 1431655766
  | .accept fd _ => fd < 1431655766
  | .fionbio fd value => value = 0 → s.socketCtx fd = none
  | .setfl _ _ _ => True
  | .getfl _ => True
  | .setsockopt _ _ _ _ _ => True

instance (s : State) (l : Label) : Decidable (Kept s l) := by
  cases l <;> unfold Kept <;> infer_instance

/-! ## Flags -/

theorem nonblock_eq (flags : BitVec 32) : nonblock flags = flags.getLsbD 11 := by
  have htwo : O_NONBLOCK = BitVec.twoPow 32 11 := by decide
  unfold nonblock
  rw [htwo, BitVec.and_twoPow]
  cases flags.getLsbD 11 <;> decide

theorem nonblock_or (flags : BitVec 32) : nonblock (flags ||| O_NONBLOCK) = true := by
  simp [nonblock_eq, O_NONBLOCK]

theorem nonblock_and (flags : BitVec 32) : nonblock (flags &&& ~~~O_NONBLOCK) = false := by
  simp [nonblock_eq, O_NONBLOCK]

theorem nonblock_setfl (arg : BitVec 32) (f : File) :
    nonblock (f.setfl arg).flags = nonblock arg := by
  simp [nonblock_eq, File.setfl, setflMask]

theorem nonblock_fionbio (value : BitVec 32) (f : File) :
    nonblock (f.fionbio value).flags = decide (value ≠ 0) := by
  unfold File.fionbio
  by_cases h : value = 0
  · rw [if_pos h, nonblock_and, decide_eq_false (not_not.mpr h)]
  · rw [if_neg h, nonblock_or, decide_eq_true h]

/-- What `init` leaves of a socket. -/
theorem init_socket (flags : BitVec 32) : ∃ f,
    FdCtx.init (some ⟨true, flags⟩) = (⟨true, true, true, false, false, -1, -1⟩, some f) ∧
      nonblock f.flags = true := by
  by_cases h : nonblock flags = true
  · exact ⟨⟨true, flags⟩, by simp [FdCtx.init, h], h⟩
  · refine ⟨File.setfl (flags ||| O_NONBLOCK) ⟨true, flags⟩, by simp [FdCtx.init, h], ?_⟩
    rw [nonblock_setfl, nonblock_or]

/-! ## One step -/

-- The sizes in these are compared with large numbers, which are not to be unfolded.
attribute [local irreducible] lookup create nonblock

/-- The context of a managed socket, and its file. -/
structure SocketSound (c : FdCtx) (file : Option File) (asked : Bool) : Prop where
  sysNonblock : c.sysNonblock = true
  isClosed : c.isClosed = false
  userNonblock : c.userNonblock = asked
  kernel : ∃ f, file = some f ∧ nonblock f.flags = true

structure Sound (s : State) : Prop where
  length_ge : 64 ≤ s.datas.length
  length_lt : s.datas.length < 2147483648
  /-- There is a context only for an open file. -/
  unused : ∀ fd, s.files fd = none → entry s.datas fd = none
  socket : ∀ fd c, entry s.datas fd = some c → c.isSocket = true →
    SocketSound c (s.files fd) (s.asked fd)

variable {s t : State} {fd : ℕ} {c : FdCtx}

theorem Sound.ctx_eq (h : Sound s) (fd : ℕ) : s.ctx fd = entry s.datas fd := by
  unfold ctx
  rw [lookup_eq h.length_lt]
  rfl

theorem Sound.socketCtx_iff (h : Sound s) :
    s.socketCtx fd = some c ↔ entry s.datas fd = some c ∧ c.isSocket = true := by
  unfold socketCtx
  rw [h.ctx_eq, Option.filter_eq_some_iff]
  constructor
  · rintro ⟨hc, hand⟩
    exact ⟨hc, (Bool.and_eq_true _ _ ▸ hand).2⟩
  · rintro ⟨hc, hsocket⟩
    exact ⟨hc, by rw [(h.socket fd c hc hsocket).isClosed, hsocket]; rfl⟩

theorem Sound.twoViews (h : Sound s) : s.TwoViews := by
  intro fd c hc hsocket
  rw [h.ctx_eq] at hc
  obtain ⟨-, -, huser, f, hf, hflags⟩ := h.socket fd c hc hsocket
  refine ⟨by rw [hf, Option.any_some, hflags], ?_⟩
  rw [fcntlGetfl, h.socketCtx_iff.mpr ⟨hc, hsocket⟩, getflWith, ← huser]
  split_ifs with hu
  · rw [nonblock_or, hu]
  · rw [nonblock_and, Bool.eq_false_iff.mpr hu]

/-- A step that only touches one fd. -/
theorem Sound.of_one (h : Sound s) (fd : ℕ) (hge : 64 ≤ t.datas.length)
    (hlt : t.datas.length < 2147483648)
    (hother : ∀ fd', fd' ≠ fd → t.files fd' = s.files fd' ∧
      entry t.datas fd' = entry s.datas fd' ∧ t.asked fd' = s.asked fd')
    (hunused : t.files fd = none → entry t.datas fd = none)
    (hsocket : ∀ c, entry t.datas fd = some c → c.isSocket = true →
      SocketSound c (t.files fd) (t.asked fd)) : Sound t := by
  refine ⟨hge, hlt, fun fd' hfd => ?_, fun fd' c hc hs => ?_⟩
  · by_cases heq : fd' = fd
    · subst heq
      exact hunused hfd
    · obtain ⟨hfiles, hentry, -⟩ := hother fd' heq
      rw [hentry]
      exact h.unused fd' (hfiles ▸ hfd)
  · by_cases heq : fd' = fd
    · subst heq
      exact hsocket c hc hs
    · obtain ⟨hfiles, hentry, hasked⟩ := hother fd' heq
      rw [hfiles, hasked]
      exact h.socket fd' c (hentry ▸ hc) hs

/-- A new socket that is not managed. -/
theorem Sound.opened (h : Sound s) (hfd : s.files fd = none) (flags : BitVec 32) :
    Sound (s.opened fd flags) := by
  have hnone : entry (s.opened fd flags).datas fd = none := h.unused fd hfd
  refine h.of_one fd h.length_ge h.length_lt (fun fd' hne => ?_) (fun _ => hnone)
    fun c hc => ?_
  · exact ⟨Function.update_of_ne hne .., rfl, Function.update_of_ne hne ..⟩
  · rw [hnone] at hc
    cases hc

theorem lookup_of_entry {datas : Datas FdCtx} (h : entry datas fd = none) :
    lookup datas fd true = none := by
  simp [lookup, h]

/-- A new socket that gets its context. -/
theorem Sound.manage (h : Sound s) (hfd : s.files fd = none) (hlt : fd < 1431655766)
    (flags : BitVec 32) : Sound ((s.opened fd flags).manage fd) := by
  have hopened := h.opened hfd flags
  have hfile : (s.opened fd flags).files fd = some ⟨true, flags⟩ := Function.update_self ..
  have hnone : entry (s.opened fd flags).datas fd = none := h.unused fd hfd
  obtain ⟨f, hinit, hflags⟩ := init_socket flags
  rw [State.manage, lookup_of_entry hnone, manageWith, hfile, hinit]
  have hfits : Fits (s.opened fd flags).datas fd := Or.inl h.length_lt
  have hentry := entry_create h.length_ge hfits ⟨true, true, true, false, false, -1, -1⟩
  have hge := length_le_create h.length_ge hfits ⟨true, true, true, false, false, -1, -1⟩
  refine hopened.of_one fd (le_trans h.length_ge hge) ?_ (fun fd' hne => ?_) (fun hf => ?_)
    fun c hc _ => ?_
  · have := h.length_lt
    unfold create
    split_ifs
    · rw [List.length_set, length_resize]
      omega
    · rw [List.length_set]
      exact this
  · exact ⟨Function.update_of_ne hne .., (hentry fd').trans (if_neg hne), rfl⟩
  · simp only [Function.update_self] at hf
    cases hf
  · cases ((hentry fd).trans (if_pos rfl)).symm.trans hc
    exact ⟨rfl, rfl, (Function.update_self fd false s.asked).symm, f,
      Function.update_self fd (some f) (s.opened fd flags).files, hflags⟩

theorem lt_of_entry {datas : Datas FdCtx} (h : entry datas fd = some c) : fd < datas.length := by
  by_contra hn
  rw [entry_of_length_le (by omega)] at h
  cases h

/-- The user's view and the file of a managed socket change. -/
theorem Sound.setCtx (h : Sound s) (hc : entry s.datas fd = some c) (asked : Bool)
    {file : Option File} (hfile : ∃ f, file = some f ∧ nonblock f.flags = true) :
    Sound { s with datas := s.datas.set fd (some { c with userNonblock := asked }),
                   files := Function.update s.files fd file,
                   asked := Function.update s.asked fd asked } := by
  have hentry := entry_set (lt_of_entry hc) (some { c with userNonblock := asked })
  refine h.of_one fd (by rw [List.length_set]; exact h.length_ge)
    (by rw [List.length_set]; exact h.length_lt) (fun fd' hne => ?_) (fun hf => ?_)
    fun c' hc' hs => ?_
  · exact ⟨Function.update_of_ne hne .., (hentry fd').trans (if_neg hne),
      Function.update_of_ne hne ..⟩
  · obtain ⟨f, rfl, -⟩ := hfile
    simp only [Function.update_self] at hf
    cases hf
  · cases ((hentry fd).trans (if_pos rfl)).symm.trans hc'
    obtain ⟨hsys, hclosed, -, -⟩ := h.socket fd c hc hs
    refine ⟨hsys, hclosed, (Function.update_self fd asked s.asked).symm, ?_⟩
    simpa only [Function.update_self] using hfile

/-- A file without a socket's context changes. -/
theorem Sound.onFile (h : Sound s) (hc : s.socketCtx fd = none) (asked : Bool)
    {file : Option File} (hfile : file = none → s.files fd = none) :
    Sound { s with files := Function.update s.files fd file,
                   asked := Function.update s.asked fd asked } := by
  refine h.of_one fd h.length_ge h.length_lt (fun fd' hne => ?_) (fun hf => ?_)
    fun c hentry hs => ?_
  · exact ⟨Function.update_of_ne hne .., rfl, Function.update_of_ne hne ..⟩
  · simp only [Function.update_self] at hf
    exact h.unused fd (hfile hf)
  · rw [h.socketCtx_iff.mpr ⟨hentry, hs⟩] at hc
    cases hc

theorem Sound.fcntlSetfl (h : Sound s) (arg : BitVec 32) (refused : Bool) :
    Sound { s.fcntlSetfl fd arg refused with
      asked := Function.update s.asked fd (nonblock arg) } := by
  cases hc : s.socketCtx fd with
  | none =>
      rw [State.fcntlSetfl, hc, setflWith, fcntlSetflF]
      split_ifs
      · have hkeep : s.files fd = none → s.files fd = none := id
        have := h.onFile hc (nonblock arg) hkeep
        rwa [Function.update_eq_self] at this
      · exact h.onFile hc (nonblock arg) fun hf => Option.map_eq_none_iff.mp hf
  | some c =>
      obtain ⟨hentry, hs⟩ := h.socketCtx_iff.mp hc
      obtain ⟨hsys, -, -, f, hf, hflags⟩ := h.socket fd c hentry hs
      rw [State.fcntlSetfl, hc, setflWith, if_pos hsys, fcntlSetflF]
      split_ifs
      · have := h.setCtx hentry (nonblock arg) ⟨f, hf, hflags⟩
        rwa [Function.update_eq_self] at this
      · refine h.setCtx hentry (nonblock arg) ⟨f.setfl (arg ||| O_NONBLOCK), ?_, ?_⟩
        · rw [show (s.setCtx fd _).files fd = some f from hf]
          rfl
        · rw [nonblock_setfl, nonblock_or]

theorem Sound.ioctlFionbio (h : Sound s) (value : BitVec 32)
    (hok : value = 0 → s.socketCtx fd = none) :
    Sound { s.ioctlFionbio fd value with
      asked := Function.update s.asked fd (value ≠ 0) } := by
  cases hc : s.socketCtx fd with
  | none =>
      rw [State.ioctlFionbio, hc, fionbioWith]
      exact h.onFile hc _ fun hf => Option.map_eq_none_iff.mp hf
  | some c =>
      have hvalue : value ≠ 0 := by
        intro h0
        rw [hok h0] at hc
        cases hc
      obtain ⟨hentry, hs⟩ := h.socketCtx_iff.mp hc
      obtain ⟨-, -, -, f, hf, -⟩ := h.socket fd c hentry hs
      rw [State.ioctlFionbio, hc, fionbioWith]
      refine h.setCtx hentry (value ≠ 0) ⟨f.fionbio value, ?_, ?_⟩
      · rw [show (s.setCtx fd _).files fd = some f from hf]
        rfl
      · rw [nonblock_fionbio, decide_eq_true hvalue]

theorem Sound.setsockopt (h : Sound s) (hooked : Bool) (type : TimeoutType) (sec usec : ℤ) :
    Sound (s.setsockopt hooked fd type sec usec) := by
  cases hooked with
  | false => exact h
  | true =>
    cases hc : s.ctx fd with
    | none =>
        rw [State.setsockopt, if_pos rfl, hc, timeoutWith]
        exact h
    | some c =>
        rw [State.setsockopt, if_pos rfl, hc, timeoutWith]
        rw [h.ctx_eq] at hc
        generalize UInt64.ofInt (sec * 1000 + usec.tdiv 1000) = v
        have hentry := entry_set (lt_of_entry hc) (some (c.setTimeout type v))
        refine h.of_one fd (by rw [State.setCtx, List.length_set]; exact h.length_ge)
          (by rw [State.setCtx, List.length_set]; exact h.length_lt)
          (fun fd' hne => ⟨rfl, (hentry fd').trans (if_neg hne), rfl⟩)
          (fun hf => ?_) fun c' hc' hs => ?_
        · rw [h.unused fd hf] at hc
          cases hc
        · cases ((hentry fd).trans (if_pos rfl)).symm.trans hc'
          cases type with
          | SO_RCVTIMEO =>
              obtain ⟨h₁, h₂, h₃, h₄⟩ := h.socket fd c hc hs
              exact ⟨h₁, h₂, h₃, h₄⟩
          | SO_SNDTIMEO =>
              obtain ⟨h₁, h₂, h₃, h₄⟩ := h.socket fd c hc hs
              exact ⟨h₁, h₂, h₃, h₄⟩

theorem Sound.step {l : Label} (h : Sound s) (hok : Kept s l) (hstep : s.step l = some t) :
    Sound t := by
  cases l with
  | socket hooked fd flags =>
      simp only [State.step] at hstep
      split_ifs at hstep with hfd hhook
      · obtain rfl := Option.some.inj hstep
        exact h.manage hfd hok flags
      · obtain rfl := Option.some.inj hstep
        exact h.opened hfd flags
  | accept fd flags =>
      simp only [State.step] at hstep
      split_ifs at hstep with hfd
      obtain rfl := Option.some.inj hstep
      exact h.manage hfd hok flags
  | setfl fd arg refused =>
      obtain rfl := Option.some.inj hstep
      exact h.fcntlSetfl arg refused
  | getfl fd =>
      obtain rfl := Option.some.inj hstep
      exact h
  | fionbio fd value =>
      obtain rfl := Option.some.inj hstep
      exact h.ioctlFionbio value hok
  | setsockopt hooked fd type sec usec =>
      obtain rfl := Option.some.inj hstep
      exact h.setsockopt hooked type sec usec

theorem sound_start (files : ℕ → Option File) : Sound (machine files).start where
  length_ge := by
    show 64 ≤ (List.replicate 64 none).length
    simp
  length_lt := by
    show (List.replicate 64 none).length < 2147483648
    simp
  unused := fun fd _ => entry_new fd
  socket := fun fd c hc _ => by
    rw [show (machine files).start.datas = FdManager.new from rfl, entry_new] at hc
    cases hc

/-! ## Runs -/

/-- `FIONBIO` with `0` makes a managed socket blocking for the kernel. -/
theorem not_twoViews_of_fionbio (h : Sound s) (hc : s.socketCtx fd = some c)
    (hstep : s.step (.fionbio fd 0) = some t) : ¬ t.TwoViews := by
  obtain ⟨hentry, hs⟩ := h.socketCtx_iff.mp hc
  obtain ⟨-, -, -, f, hf, -⟩ := h.socket fd c hentry hs
  rw [State.step, State.ioctlFionbio, hc, fionbioWith, Option.some.injEq] at hstep
  intro htwo
  have hdatas : t.datas = s.datas.set fd (some { c with userNonblock := false }) := by
    rw [← hstep]
    rfl
  have hfiles : t.files fd = some (f.fionbio 0) := by
    rw [← hstep]
    show Function.update s.files fd ((s.files fd).map (File.fionbio 0)) fd = _
    rw [Function.update_self, hf, Option.map_some]
  have hctx : t.ctx fd = some { c with userNonblock := false } := by
    have hlen : t.datas.length < 2147483648 := by
      rw [hdatas, List.length_set]
      exact h.length_lt
    rw [State.ctx, lookup_eq hlen, hdatas, entry_set (lt_of_entry hentry), if_pos rfl]
    rfl
  obtain ⟨hkernel, -⟩ := htwo fd _ hctx hs
  rw [hfiles, Option.any_some, nonblock_fionbio] at hkernel
  exact absurd hkernel (by decide)

/-- **Both views.** In every run without a `FIONBIO` of `0` on a managed socket, every
managed socket is nonblocking for the kernel, and `F_GETFL` says what the user has asked
for. A `FIONBIO` of `0` ends this. -/
theorem twoViews_of_reachable (files : ℕ → Option File) {s : State}
    (h : (machine files).Reachable Kept s) :
    s.TwoViews ∧ ∀ fd t, s.socketCtx fd ≠ none → s.step (.fionbio fd 0) = some t →
      ¬ t.TwoViews := by
  have hsound : Sound s :=
    h.invariant (sound_start files) fun hI hok hstep => Sound.step hI hok hstep
  refine ⟨hsound.twoViews, fun fd t hne hstep => ?_⟩
  obtain ⟨c, hc⟩ := Option.ne_none_iff_exists'.mp hne
  exact not_twoViews_of_fionbio hsound hc hstep

/-- A socket that its user makes nonblocking and blocking again. -/
theorem twoViews_of_reachable_socket :
    ∃ s, (machine fun _ => none).Reachable Kept s ∧ s.ctx 5 ≠ none ∧
      nonblock (s.fcntlGetfl 5) = false ∧ s.TwoViews := by
  obtain ⟨s, h, hctx, hget⟩ :
      ∃ s, (machine fun _ => none).Reachable Kept s ∧ s.ctx 5 ≠ none ∧
        nonblock (s.fcntlGetfl 5) = false :=
    Lib.Machine.exists_of_exec
      [.socket true 5 2, .fionbio 5 1, .setsockopt true 5 .SO_RCVTIMEO 1 0, .setfl 5 2 false]
      (by decide +kernel)
  exact ⟨s, h, hctx, hget, (twoViews_of_reachable (fun _ => none) h).1⟩

/-- `ioctl(fd, FIONBIO, 0)` on a managed socket. -/
theorem fionbio_makes_blocking :
    ∃ s, (machine fun _ => none).Reachable (fun _ _ => True) s ∧
      (s.ctx 5).any (fun c => c.isSocket && c.sysNonblock) = true ∧
      s.files 5 = some ⟨true, 2⟩ := by
  exact Lib.Machine.exists_of_exec [.socket true 5 2, .fionbio 5 0] (by decide +kernel)

end State

end Nonblock

end Skt
