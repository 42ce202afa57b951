/-
CashStratum/SendQueue.lean

What the connector writes (`connector.c`).  Any thread queues messages for any client; a client
belongs to one of the sender threads, which walks over its list, writes what the sockets take
and takes over what was queued meanwhile.  A frame of an SV2 client is encrypted in place when
its turn comes.

The threads interleave at every step of `send_sender_send`, and `write` is two of them: the
descriptor is read from the client, and then the kernel writes to what it stands for.  Between
the two another thread may close the client, and the descriptor may stand for another socket.

`sealQueue` is the text of a queue of messages.  A client that was not dropped is at the front
of its queue or in a message of it (`SendLive`), which every step keeps as long as no descriptor
is written to that has passed to another client (`SendNet.Held`).
-/
import CashStratum.Sv2Conn

namespace CashStratum

open Function

variable {κ : Type}

/-- `sender_send_t` at address `addr`.  `plain` and `secret` are what was queued. -/
structure SenderSend where
  addr : Nat
  client : Nat
  plain : Bytes
  secret : Bool
  /-- The `len` bytes of `buf` from `ofs` on. -/
  buf : Bytes
  sv2Encrypt : Bool
  qlen : Nat

/-- What a message was when it was queued. -/
def SenderSend.item (m : SenderSend) : Bytes × Bool := (m.plain, m.secret)

/-- `buf` is replaced by what it was encrypted to. -/
def SenderSend.encrypted (m : SenderSend) (ct : Bytes) : SenderSend :=
  { m with buf := ct, sv2Encrypt := false }

/-- `n` bytes have been written. -/
def SenderSend.advance (m : SenderSend) (n : Nat) : SenderSend := { m with buf := m.buf.drop n }

@[simp] theorem SenderSend.advance_client (m : SenderSend) (n : Nat) :
    (m.advance n).client = m.client := rfl

/-- A message that was not begun. -/
def SenderSend.Fresh (m : SenderSend) : Prop := m.buf = m.plain ∧ m.sv2Encrypt = m.secret

/-- `client_instance_t`, the session it was `opened` with, and the messages `queued` for it. -/
structure SendClient (κ : Type) where
  fd : Option Nat
  invalid : Bool
  sending : Option Nat
  queuedBytes : Int
  sv2c : Option (NoiseSession κ)
  opened : Option (NoiseSession κ)
  queued : List (Bytes × Bool)

/-- Where a sender thread is. -/
inductive SenderPos
  /-- Before the next message of its walk. -/
  | next
  /-- At the head of the loop that writes the message. -/
  | writing
  /-- About to call `write` on a descriptor. -/
  | loaded (fd : Option Nat)
deriving DecidableEq

/-- The descriptor that is about to be written to. -/
def SenderPos.fd : SenderPos → Option Nat
  | .loaded fd => fd
  | _ => none

/-- `csender_t`: what was queued since the walk began, what the walk has gone past, and what is
before it. -/
structure CSender where
  sends : List SenderSend
  walked : List SenderSend
  walking : List SenderSend
  pos : SenderPos

/-- The messages of a sender, in the order in which they come up. -/
def CSender.held (cs : CSender) : List SenderSend := cs.walked ++ cs.walking ++ cs.sends

/-- The connector, what each descriptor stands for, and what was written to the socket of each
client. -/
structure SendNet (κ : Type) where
  clients : Nat → SendClient κ
  clientIds : Nat
  csenders : Nat → CSender
  fds : Nat → Option Nat
  sockets : Nat → Bytes
  allocs : Nat

/-- The connector before it has accepted anything. -/
def SendNet.start : SendNet κ where
  clients _ := ⟨none, true, none, 0, none, none, []⟩
  clientIds := 0
  csenders _ := ⟨[], [], [], .next⟩
  fds _ := none
  sockets _ := []
  allocs := 0

/-- `__drop_client` -/
def SendNet.dropClient (s : SendNet κ) (c : Nat) : SendNet κ :=
  if (s.clients c).invalid then s
  else
    { s with
      clients := update s.clients c { s.clients c with invalid := true, fd := none }
      fds :=
        match (s.clients c).fd with
        | none => s.fds
        | some fd => update s.fds fd none }

/-- `out_true`, and `clear_sender_send` of the message at the head of the walk. -/
def SendNet.release (s : SendNet κ) (i : Nat) (m : SenderSend) (rest : List SenderSend) :
    SendNet κ :=
  { s with
    clients := update s.clients m.client
      { s.clients m.client with
        sending := none
        queuedBytes := max ((s.clients m.client).queuedBytes - m.qlen) 0 }
    csenders := update s.csenders i { s.csenders i with walking := rest, pos := .next } }

/-- `send_sender_send` has returned false. -/
def SendNet.keep (s : SendNet κ) (i : Nat) (m : SenderSend) (rest : List SenderSend) : SendNet κ :=
  { s with
    csenders := update s.csenders i
      { s.csenders i with
        walked := (s.csenders i).walked ++ [m]
        walking := rest
        pos := .next } }

/-- The loop that writes the message `m` is entered. -/
def SendNet.begin (s : SendNet κ) (i : Nat) (m : SenderSend) (rest : List SenderSend)
    (sv2c : Option (NoiseSession κ)) : SendNet κ :=
  { s with
    clients := update s.clients m.client
      { s.clients m.client with sending := some m.addr, sv2c := sv2c }
    csenders := update s.csenders i
      { s.csenders i with walking := m :: rest, pos := .writing } }

variable (A : Aead κ)

/-- `sv2_conn_encrypt`, where a client that is not an SV2 client has no session. -/
def sv2ConnEncrypt : Option (NoiseSession κ) → Bytes → Option (Bytes × Option (NoiseSession κ))
  | none, _ => none
  | some noise, plain =>
    match encryptFrame A noise plain with
    | (none, _) => none
    | (some ct, noise) => some (ct, some noise)

/-- `send_sender_send` up to its loop, or the end of a walk. -/
def SendNet.look (s : SendNet κ) (i : Nat) : SendNet κ :=
  match (s.csenders i).walking with
  | [] =>
    { s with
      csenders := update s.csenders i
        ⟨[], [], (s.csenders i).walked ++ (s.csenders i).sends, .next⟩ }
  | m :: rest =>
    let client := s.clients m.client
    if client.invalid then s.release i m rest
    else if client.sending ≠ none ∧ client.sending ≠ some m.addr then s.keep i m rest
    else if m.sv2Encrypt then
      match sv2ConnEncrypt A client.sv2c m.buf with
      | none => (s.dropClient m.client).release i m rest
      | some (ct, sv2c) => s.begin i (m.encrypted ct) rest sv2c
    else s.begin i m rest client.sv2c

/-- The head of the loop. -/
def SendNet.load (s : SendNet κ) (i : Nat) : SendNet κ :=
  match (s.csenders i).walking with
  | [] => s
  | m :: rest =>
    if m.buf = [] then s.release i m rest
    else
      { s with
        csenders := update s.csenders i
          { s.csenders i with pos := .loaded (s.clients m.client).fd } }

/-- `write` takes `n` bytes, or the descriptor is not open. -/
def SendNet.write (s : SendNet κ) (i n : Nat) (fd : Option Nat) : SendNet κ :=
  match (s.csenders i).walking with
  | [] => s
  | m :: rest =>
    match fd.bind s.fds with
    | none => (s.dropClient m.client).release i m rest
    | some c =>
      if 0 < n ∧ n ≤ m.buf.length then
        { s with
          sockets := update s.sockets c (s.sockets c ++ m.buf.take n)
          csenders := update s.csenders i
            { s.csenders i with
              walking := m.advance n :: rest
              pos := .writing } }
      else s

inductive SendEvent (κ : Type)
  /-- `accept_client` -/
  | accept (c fd : Nat) (sv2c : Option (NoiseSession κ))
  /-- `queue_sender_send` -/
  | queue (c : Nat) (plain : Bytes) (secret : Bool)
  | drop (c : Nat)
  | look (i : Nat)
  | load (i : Nat)
  | write (i n : Nat)
  /-- `EAGAIN` -/
  | stall (i : Nat)
  /-- An error, or a client that has been blocked for 60 seconds. -/
  | fail (i : Nat)

variable (nsenders : Nat)

/-- A step of one of the threads.  Only an SV2 client is sent frames to encrypt. -/
def SendNet.step (s : SendNet κ) : SendEvent κ → SendNet κ
  | .accept c fd sv2c =>
    if s.clientIds ≤ c ∧ s.fds fd = none then
      { s with
        clients := update s.clients c ⟨some fd, false, none, 0, sv2c, sv2c, []⟩
        clientIds := c + 1
        fds := update s.fds fd (some c) }
    else s
  | .queue c plain secret =>
    if c < s.clientIds ∧ (secret = true → (s.clients c).sv2c.isSome) then
      let client := s.clients c
      let cs := s.csenders (c % nsenders)
      { s with
        clients := update s.clients c
          { client with
            queuedBytes := client.queuedBytes + plain.length
            queued := client.queued ++ [(plain, secret)] }
        csenders := update s.csenders (c % nsenders)
          { cs with sends := cs.sends ++ [⟨s.allocs, c, plain, secret, plain, secret, plain.length⟩] }
        allocs := s.allocs + 1 }
    else s
  | .drop c => s.dropClient c
  | .look i => if (s.csenders i).pos = .next then s.look A i else s
  | .load i => if (s.csenders i).pos = .writing then s.load i else s
  | .write i n =>
    match (s.csenders i).pos with
    | .loaded fd => s.write i n fd
    | _ => s
  | .stall i =>
    match (s.csenders i).pos, (s.csenders i).walking with
    | .loaded _, m :: rest => s.keep i m rest
    | _, _ => s
  | .fail i =>
    match (s.csenders i).pos, (s.csenders i).walking with
    | .loaded _, m :: rest => (s.dropClient m.client).release i m rest
    | _, _ => s

/-- A descriptor that is written to stands for the client of the message, if for any. -/
def SendNet.Held (s : SendNet κ) : SendEvent κ → Prop
  | .write i _ => ∀ m ∈ (s.csenders i).walking.head?, ∀ c ∈ (s.csenders i).pos.fd.bind s.fds,
      c = m.client
  | _ => True

instance SendNet.Held.decidable (s : SendNet κ) : ∀ e, Decidable (s.Held e)
  | .write i _ => inferInstanceAs (Decidable (∀ m ∈ (s.csenders i).walking.head?,
      ∀ c ∈ (s.csenders i).pos.fd.bind s.fds, c = m.client))
  | .accept .. | .queue .. | .drop _ | .look _ | .load _ | .stall _ | .fail _ =>
    inferInstanceAs (Decidable True)

/-! ### The text of a queue -/

section Text

/-- The text of one message. -/
def sealItem (sv2c : Option (NoiseSession κ)) (item : Bytes × Bool) :
    Option (Bytes × Option (NoiseSession κ)) :=
  if item.2 then sv2ConnEncrypt A sv2c item.1 else some (item.1, sv2c)

/-- The text of messages one after the other, each frame encrypted once, and the session after
them. -/
def sealQueue (sv2c : Option (NoiseSession κ)) :
    List (Bytes × Bool) → Option (Bytes × Option (NoiseSession κ))
  | [] => some ([], sv2c)
  | item :: rest =>
    (sealItem A sv2c item).bind fun r => (sealQueue r.2 rest).map fun r' => (r.1 ++ r'.1, r'.2)

variable {A}

theorem sealQueue_append_singleton {sv2c sv2c' sv2c'' : Option (NoiseSession κ)}
    {before : List (Bytes × Bool)} {item : Bytes × Bool} {text ct : Bytes}
    (h : sealQueue A sv2c before = some (text, sv2c'))
    (hitem : sealItem A sv2c' item = some (ct, sv2c'')) :
    sealQueue A sv2c (before ++ [item]) = some (text ++ ct, sv2c'') := by
  induction before generalizing sv2c text with
  | nil =>
    obtain ⟨rfl, rfl⟩ := Prod.mk.inj (Option.some.inj h)
    rw [List.nil_append, sealQueue, hitem]
    simp [sealQueue]
  | cons first before ih =>
    rw [sealQueue] at h
    obtain ⟨r, hfirst, h'⟩ := Option.bind_eq_some_iff.mp h
    obtain ⟨r', hrest, heq⟩ := Option.map_eq_some_iff.mp h'
    obtain ⟨rfl, rfl⟩ := Prod.mk.inj heq
    rw [List.cons_append, sealQueue, hfirst, Option.bind_some, @ih r.2 r'.1 hrest]
    simp

end Text

/-! ### The messages of a client -/

section Mine

/-- The messages of a client. -/
def mine (c : Nat) (l : List SenderSend) : List SenderSend := l.filter fun m => m.client = c

variable {c : Nat} {m m' : SenderSend} {l l' : List SenderSend}

@[simp] theorem mine_nil : mine c [] = [] := rfl

@[simp] theorem mine_append : mine c (l ++ l') = mine c l ++ mine c l' := List.filter_append ..

theorem mine_cons_of_eq (h : m.client = c) : mine c (m :: l) = m :: mine c l :=
  List.filter_cons_of_pos (decide_eq_true h)

theorem mine_cons_of_ne (h : m.client ≠ c) : mine c (m :: l) = mine c l :=
  List.filter_cons_of_neg (by simpa using h)

theorem mem_mine : m ∈ mine c l ↔ m ∈ l ∧ m.client = c := by
  rw [mine, List.mem_filter, decide_eq_true_iff]

theorem mine_eq_nil (h : ∀ m ∈ l, m.client ≠ c) : mine c l = [] :=
  List.filter_eq_nil_iff.mpr fun m hm => by simpa using h m hm

/-- Addresses tell messages apart, so that the first message of a client with the address of one
of them is that one. -/
theorem mine_head_eq (hnodup : ((l ++ m :: l').map SenderSend.addr).Nodup) (hm : m.client = c)
    {rest : List SenderSend} (h : mine c (l ++ m :: l') = m' :: rest) (haddr : m'.addr = m.addr) :
    mine c l = [] ∧ m' = m ∧ rest = mine c l' := by
  rw [mine_append, mine_cons_of_eq hm] at h
  cases hl : mine c l with
  | nil =>
    rw [hl] at h
    obtain ⟨rfl, rfl⟩ := List.cons.inj h
    exact ⟨rfl, rfl, rfl⟩
  | cons x xs =>
    rw [hl] at h
    obtain ⟨rfl, -⟩ := List.cons.inj h
    have hx : x ∈ l := (mem_mine.mp (hl ▸ List.mem_cons_self)).1
    rw [List.map_append, List.map_cons, List.nodup_append] at hnodup
    exact absurd haddr (hnodup.2.2 x.addr (List.mem_map_of_mem hx) m.addr List.mem_cons_self)

end Mine

/-! ### What holds between the steps -/

section Inv

/-- A client that was not dropped: all that was begun is written, or the message that is being
sent is in part.  The rest is as it was queued. -/
inductive SendLive (A : Aead κ) (client : SendClient κ) (socket : Bytes)
    (walked pending : List SenderSend) : Prop
  | idle (before : List (Bytes × Bool))
      (sealed : sealQueue A client.opened before = some (socket, client.sv2c))
      (queued : client.queued = before ++ pending.map SenderSend.item)
      (sending : client.sending = none) (fresh : ∀ m ∈ pending, m.Fresh) (walked : walked = [])
  | sending (before : List (Bytes × Bool)) (m : SenderSend) (rest : List SenderSend)
      (first : pending = m :: rest)
      (sealed : sealQueue A client.opened (before ++ [m.item])
        = some (socket ++ m.buf, client.sv2c))
      (queued : client.queued = before ++ pending.map SenderSend.item)
      (sending : client.sending = some m.addr) (plain : m.sv2Encrypt = false)
      (fresh : ∀ m ∈ rest, m.Fresh)

/-- What was written is the start of the text of the first messages. -/
def SendSound (A : Aead κ) (client : SendClient κ) (socket : Bytes) : Prop :=
  ∃ before text sv2c, before <+: client.queued ∧
    sealQueue A client.opened before = some (text, sv2c) ∧ socket <+: text

variable {A : Aead κ} {N : Nat} {s : SendNet κ}

/-- The messages of a client, all of which are with one sender. -/
def SendNet.pending (N : Nat) (s : SendNet κ) (c : Nat) : List SenderSend :=
  mine c (s.csenders (c % N)).held

structure SendNet.Inv (A : Aead κ) (N : Nat) (s : SendNet κ) : Prop where
  placed : ∀ i, ∀ m ∈ (s.csenders i).held,
    m.client % N = i ∧ m.client < s.clientIds ∧ m.addr < s.allocs
  nodup : ∀ i, ((s.csenders i).held.map SenderSend.addr).Nodup
  busy : ∀ i, (s.csenders i).pos ≠ .next → ∃ m rest, (s.csenders i).walking = m :: rest ∧
    ((s.clients m.client).invalid = false → (s.clients m.client).sending = some m.addr)
  owner : ∀ fd c, s.fds fd = some c ↔ (s.clients c).invalid = false ∧ (s.clients c).fd = some fd
  unborn : ∀ c, s.clientIds ≤ c → (s.clients c).invalid = true ∧ s.sockets c = []
  bytes : ∀ c, (s.clients c).queuedBytes = (((s.pending N c).map SenderSend.qlen).sum : Nat)
  sound : ∀ c, SendSound A (s.clients c) (s.sockets c)
  live : ∀ c, (s.clients c).invalid = false →
    SendLive A (s.clients c) (s.sockets c) (mine c (s.csenders (c % N)).walked) (s.pending N c)

theorem SendNet.start_inv (A : Aead κ) (N : Nat) : (SendNet.start : SendNet κ).Inv A N where
  placed i m hm := absurd hm List.not_mem_nil
  nodup i := List.nodup_nil
  busy i hpos := absurd rfl hpos
  owner fd c := ⟨fun h => (by cases h), fun h => (by cases h.1)⟩
  unborn c _ := ⟨rfl, rfl⟩
  bytes c := rfl
  sound c := ⟨[], [], none, List.prefix_rfl, rfl, List.prefix_rfl⟩
  live c h := by cases h

/-- A step that has to do with one client and its sender only. -/
theorem SendNet.Inv.sender (h : s.Inv A N) {s' : SendNet κ} {i d : Nat} (hd : d % N = i)
    (hborn : d < s.clientIds) (hsenders : ∀ j, j ≠ i → s'.csenders j = s.csenders j)
    (hclients : ∀ c, c ≠ d → s'.clients c = s.clients c)
    (hsockets : ∀ c, c ≠ d → s'.sockets c = s.sockets c) (hids : s'.clientIds = s.clientIds)
    (hallocs : s.allocs ≤ s'.allocs) (hfds : s'.fds = s.fds)
    (hfd : (s'.clients d).invalid = (s.clients d).invalid ∧ (s'.clients d).fd = (s.clients d).fd)
    (hheld : ∀ c, c ≠ d → mine c (s'.csenders i).held = mine c (s.csenders i).held)
    (hwalked : ∀ c, c ≠ d → mine c (s'.csenders i).walked = mine c (s.csenders i).walked)
    (hplaced : ∀ m ∈ (s'.csenders i).held,
      m.client % N = i ∧ m.client < s.clientIds ∧ m.addr < s'.allocs)
    (hnodup : ((s'.csenders i).held.map SenderSend.addr).Nodup)
    (hbusy : (s'.csenders i).pos ≠ .next → ∃ m rest, (s'.csenders i).walking = m :: rest ∧
      ((s'.clients m.client).invalid = false → (s'.clients m.client).sending = some m.addr))
    (hbytes : (s'.clients d).queuedBytes
      = (((mine d (s'.csenders i).held).map SenderSend.qlen).sum : Nat))
    (hsound : SendSound A (s'.clients d) (s'.sockets d))
    (hlive : (s'.clients d).invalid = false →
      SendLive A (s'.clients d) (s'.sockets d) (mine d (s'.csenders i).walked)
        (mine d (s'.csenders i).held)) :
    s'.Inv A N := by
  have hpending : ∀ c, c ≠ d → s'.pending N c = s.pending N c ∧
      mine c (s'.csenders (c % N)).walked = mine c (s.csenders (c % N)).walked := by
    intro c hc
    rw [SendNet.pending, SendNet.pending]
    by_cases hi : c % N = i
    · rw [hi]
      exact ⟨hheld c hc, hwalked c hc⟩
    · rw [hsenders _ hi]
      exact ⟨rfl, rfl⟩
  refine ⟨fun j m hm => ?_, fun j => ?_, fun j hpos => ?_, fun fd c => ?_, fun c hc => ?_,
    fun c => ?_, fun c => ?_, fun c hc => ?_⟩
  · rw [hids]
    by_cases hj : j = i
    · subst hj
      exact hplaced m hm
    · rw [hsenders j hj] at hm
      obtain ⟨hclient, hid, haddr⟩ := h.placed j m hm
      exact ⟨hclient, hid, haddr.trans_le hallocs⟩
  · by_cases hj : j = i
    · exact hj ▸ hnodup
    · rw [hsenders j hj]
      exact h.nodup j
  · by_cases hj : j = i
    · subst hj
      exact hbusy hpos
    · rw [hsenders j hj] at hpos ⊢
      obtain ⟨m, rest, hwalking, hsending⟩ := h.busy j hpos
      refine ⟨m, rest, hwalking, ?_⟩
      have hm : m ∈ (s.csenders j).held := by
        rw [CSender.held, hwalking]
        simp
      rw [hclients m.client (fun heq => hj ((h.placed j m hm).1.symm.trans (heq ▸ hd)))]
      exact hsending
  · rw [hfds, h.owner fd c]
    by_cases hc : c = d
    · rw [hc, hfd.1, hfd.2]
    · rw [hclients c hc]
  · rw [hids] at hc
    have hne : c ≠ d := fun heq => absurd hborn (not_lt.mpr (heq ▸ hc))
    rw [hclients c hne, hsockets c hne]
    exact h.unborn c hc
  · by_cases hc : c = d
    · rw [hc, SendNet.pending, hd]
      exact hbytes
    · rw [hclients c hc, (hpending c hc).1]
      exact h.bytes c
  · by_cases hc : c = d
    · exact hc ▸ hsound
    · rw [hclients c hc, hsockets c hc]
      exact h.sound c
  · by_cases hcd : c = d
    · subst hcd
      rw [SendNet.pending, hd]
      exact hlive hc
    · rw [hclients c hcd] at hc ⊢
      rw [hsockets c hcd, (hpending c hcd).1, (hpending c hcd).2]
      exact h.live c hc

variable {i : Nat} {m : SenderSend} {rest : List SenderSend}

theorem CSender.held_eq {cs : CSender} (hwalking : cs.walking = m :: rest) :
    cs.held = cs.walked ++ m :: (rest ++ cs.sends) := by
  rw [CSender.held, hwalking, List.append_assoc]
  rfl

theorem SendNet.Inv.mem_placed (h : s.Inv A N) (hwalking : (s.csenders i).walking = m :: rest) :
    m.client % N = i ∧ m.client < s.clientIds ∧ m.addr < s.allocs := by
  apply h.placed i m
  rw [CSender.held_eq hwalking]
  exact List.mem_append_right _ List.mem_cons_self

/-- The message that is being sent is the first of its client. -/
theorem SendNet.Inv.sending_first (h : s.Inv A N) (hwalking : (s.csenders i).walking = m :: rest)
    {m' : SenderSend} {rest' : List SenderSend} (hpending : s.pending N m.client = m' :: rest')
    (haddr : m'.addr = m.addr) :
    mine m.client (s.csenders i).walked = [] ∧ m' = m ∧
      rest' = mine m.client (rest ++ (s.csenders i).sends) := by
  have hnodup := h.nodup i
  rw [SendNet.pending, (h.mem_placed hwalking).1, CSender.held_eq hwalking] at hpending
  rw [CSender.held_eq hwalking] at hnodup
  exact mine_head_eq hnodup rfl hpending haddr

/-- A message is released when all of it is written, or when its client was dropped. -/
theorem SendNet.Inv.release (h : s.Inv A N) (hwalking : (s.csenders i).walking = m :: rest)
    (hdone : (s.clients m.client).invalid = false →
      m.buf = [] ∧ (s.clients m.client).sending = some m.addr) :
    (s.release i m rest).Inv A N := by
  obtain ⟨hd, hborn, -⟩ := h.mem_placed hwalking
  have hheld := CSender.held_eq hwalking
  have hheld' : ((s.release i m rest).csenders i).held
      = (s.csenders i).walked ++ (rest ++ (s.csenders i).sends) := by
    simp [SendNet.release, CSender.held]
  have hsub : ((s.release i m rest).csenders i).held.Sublist (s.csenders i).held := by
    rw [hheld, hheld']
    exact (List.Sublist.refl _).append (List.sublist_cons_self _ _)
  apply h.sender hd hborn
  · intro j hj
    exact update_of_ne hj _ _
  · intro c hc
    exact update_of_ne hc _ _
  · intro c _
    rfl
  · rfl
  · rfl
  · rfl
  · simp [SendNet.release]
  · intro c hc
    rw [hheld, hheld', mine_append, mine_append (l := (s.csenders i).walked),
      mine_cons_of_ne (fun heq => hc heq.symm)]
  · intro c _
    simp [SendNet.release]
  · exact fun m' hm' => h.placed i m' (hsub.subset hm')
  · exact (h.nodup i).sublist (hsub.map _)
  · simp [SendNet.release]
  · have hbytes := h.bytes m.client
    rw [SendNet.pending, hd, hheld, mine_append, mine_cons_of_eq rfl, List.map_append,
      List.map_cons, List.sum_append, List.sum_cons] at hbytes
    rw [hheld', mine_append, List.map_append, List.sum_append]
    simp only [SendNet.release, update_self]
    omega
  · simpa [SendNet.release, SendSound] using h.sound m.client
  · intro hvalid
    have hvalid' : (s.clients m.client).invalid = false := by
      simpa [SendNet.release] using hvalid
    obtain ⟨hempty, hsending⟩ := hdone hvalid'
    cases h.live m.client hvalid' with
    | idle before hsealed hqueued hnone hfresh hwalked =>
      rw [hsending] at hnone
      cases hnone
    | sending before m' rest' hpending hsealed hqueued hsome hplain hfresh =>
      obtain ⟨hwalked, rfl, rfl⟩ := h.sending_first hwalking hpending
        (Option.some.inj (hsome.symm.trans hsending))
      rw [hempty, List.append_nil] at hsealed
      refine SendLive.idle (before ++ [m'.item]) ?_ ?_ ?_ ?_ ?_
      · simpa [SendNet.release] using hsealed
      · rw [hheld', mine_append, hwalked, List.nil_append, List.append_assoc]
        simp only [SendNet.release, update_self]
        rw [hqueued, hpending]
        rfl
      · simp [SendNet.release]
      · rw [hheld', mine_append, hwalked]
        exact hfresh
      · simpa [SendNet.release] using hwalked

/-- A message that is not sent yet stays before the later ones. -/
theorem SendNet.Inv.keep (h : s.Inv A N) (hwalking : (s.csenders i).walking = m :: rest)
    (hbusy : (s.clients m.client).invalid = false → (s.clients m.client).sending ≠ none) :
    (s.keep i m rest).Inv A N := by
  obtain ⟨hd, hborn, -⟩ := h.mem_placed hwalking
  have hheld : ((s.keep i m rest).csenders i).held = (s.csenders i).held := by
    simp [SendNet.keep, CSender.held, hwalking]
  apply h.sender hd hborn
  · intro j hj
    exact update_of_ne hj _ _
  · intro c _
    rfl
  · intro c _
    rfl
  · rfl
  · rfl
  · rfl
  · exact ⟨rfl, rfl⟩
  · intro c _
    rw [hheld]
  · intro c hc
    simp [SendNet.keep, mine_cons_of_ne (fun heq : m.client = c => hc heq.symm)]
  · rw [hheld]
    exact h.placed i
  · rw [hheld]
    exact h.nodup i
  · simp [SendNet.keep]
  · rw [hheld]
    have hbytes := h.bytes m.client
    rwa [SendNet.pending, hd] at hbytes
  · exact h.sound m.client
  · intro hvalid
    rw [hheld]
    cases h.live m.client hvalid with
    | idle before hsealed hqueued hnone hfresh hwalked => exact absurd hnone (hbusy hvalid)
    | sending before m' rest' hpending hsealed hqueued hsome hplain hfresh =>
      rw [SendNet.pending, hd] at hpending
      rw [SendNet.pending, hd] at hqueued
      exact SendLive.sending before m' rest' hpending hsealed hqueued hsome hplain hfresh

/-- The message at the head of a walk in place of another of the same client. -/
theorem mine_replace {m' : SenderSend} (hclient : m'.client = m.client) {c : Nat}
    (hc : c ≠ m.client) (l l' : List SenderSend) :
    mine c (l ++ m' :: l') = mine c (l ++ m :: l') := by
  rw [mine_append, mine_append, mine_cons_of_ne (fun heq => hc heq.symm),
    mine_cons_of_ne (fun heq => hc (hclient ▸ heq.symm))]

/-- The first message of a client is begun, or gone on with. -/
theorem SendNet.Inv.begin (h : s.Inv A N) (hwalking : (s.csenders i).walking = m :: rest)
    (hvalid : (s.clients m.client).invalid = false) {m' : SenderSend}
    (hsame : m'.addr = m.addr ∧ m'.client = m.client ∧ m'.item = m.item ∧ m'.qlen = m.qlen)
    (hplain : m'.sv2Encrypt = false) {sv2c : Option (NoiseSession κ)}
    (hbegin : (s.clients m.client).sending = none → m.Fresh →
      sealItem A (s.clients m.client).sv2c m.item = some (m'.buf, sv2c))
    (hgo : (s.clients m.client).sending ≠ none → (s.clients m.client).sending = some m.addr ∧
      (m.sv2Encrypt = false → m' = m ∧ sv2c = (s.clients m.client).sv2c)) :
    (s.begin i m' rest sv2c).Inv A N := by
  obtain ⟨haddr, hclient, hitem, hqlen⟩ := hsame
  obtain ⟨hd, hborn, halloc⟩ := h.mem_placed hwalking
  have hheld := CSender.held_eq hwalking
  have hheld' : ((s.begin i m' rest sv2c).csenders i).held
      = (s.csenders i).walked ++ m' :: (rest ++ (s.csenders i).sends) := by
    simp [SendNet.begin, CSender.held]
  apply h.sender (hclient ▸ hd) (hclient ▸ hborn)
  · intro j hj
    exact update_of_ne hj _ _
  · intro c hc
    exact update_of_ne hc _ _
  · intro c _
    rfl
  · rfl
  · rfl
  · rfl
  · simp [SendNet.begin]
  · -- no other client has messages that change
    intro c hc
    rw [hheld, hheld']
    exact mine_replace hclient (hclient ▸ hc) _ _
  · intro c _
    simp [SendNet.begin]
  · -- the message keeps its place, its address and its length
    intro x hx
    rw [hheld'] at hx
    rcases List.mem_append.mp hx with hwalked | hrest
    · exact h.placed i x (hheld ▸ List.mem_append_left _ hwalked)
    · rcases List.mem_cons.mp hrest with rfl | hrest
      · exact ⟨hclient ▸ hd, hclient ▸ hborn, haddr ▸ halloc⟩
      · exact h.placed i x (hheld ▸ List.mem_append_right _ (List.mem_cons_of_mem _ hrest))
  · have hnodup := h.nodup i
    rw [hheld, List.map_append, List.map_cons] at hnodup
    rw [hheld', List.map_append, List.map_cons, haddr]
    exact hnodup
  · intro _
    refine ⟨m', rest, ?_, fun _ => ?_⟩ <;> simp [SendNet.begin]
  · have hbytes := h.bytes m.client
    rw [SendNet.pending, hd, hheld, mine_append, mine_cons_of_eq rfl, List.map_append,
      List.map_cons] at hbytes
    rw [hheld', mine_append, mine_cons_of_eq rfl, List.map_append, List.map_cons, hqlen, hclient]
    simp only [SendNet.begin, hclient, update_self]
    exact hbytes
  · have hsound := h.sound m.client
    rw [← hclient] at hsound
    simpa [SendNet.begin, SendSound] using hsound
  · intro _
    rw [hheld']
    have hlive := h.live m.client hvalid
    cases hlive with
    | idle before hsealed hqueued hnone hfresh hwalked =>
      -- the text of the message is put to what was sealed
      rw [SendNet.pending, hd, hheld, mine_append, mine_cons_of_eq rfl] at hqueued hfresh
      rw [hd] at hwalked
      rw [hwalked, List.nil_append] at hqueued hfresh
      have hitem' := hbegin hnone (hfresh m List.mem_cons_self)
      refine SendLive.sending before m' (mine m.client (rest ++ (s.csenders i).sends)) ?_ ?_ ?_ ?_
        hplain (fun x hx => hfresh x (List.mem_cons_of_mem _ hx))
      · rw [mine_append, mine_cons_of_eq rfl, hclient, hwalked, List.nil_append]
      · simp only [SendNet.begin, hclient, update_self, hitem]
        exact sealQueue_append_singleton hsealed hitem'
      · rw [mine_append, mine_cons_of_eq rfl, hclient, hwalked, List.nil_append, List.map_cons,
          hitem]
        simp only [SendNet.begin, hclient, update_self]
        exact hqueued
      · simp [SendNet.begin]
    | sending before m'' rest' hpending hsealed hqueued hsome hplain' hfresh =>
      -- it has been begun before
      obtain ⟨hsending, hkeep⟩ := hgo (by rw [hsome]; exact Option.some_ne_none _)
      obtain ⟨hwalked, rfl, rfl⟩ := h.sending_first hwalking hpending
        (Option.some.inj (hsome.symm.trans hsending))
      obtain ⟨rfl, rfl⟩ := hkeep hplain'
      refine SendLive.sending before m' (mine m'.client (rest ++ (s.csenders i).sends)) ?_ ?_ ?_
        ?_ hplain hfresh
      · rw [mine_append, mine_cons_of_eq rfl, hwalked, List.nil_append]
      · simpa [SendNet.begin] using hsealed
      · rw [mine_append, mine_cons_of_eq rfl, hwalked, List.nil_append]
        simp only [SendNet.begin, update_self]
        rw [hqueued, hpending]
      · simp [SendNet.begin]

/-- A walk begins, over all that is left and all that was queued. -/
theorem SendNet.Inv.collect (h : s.Inv A N) (hwalking : (s.csenders i).walking = []) :
    SendNet.Inv A N { s with
      csenders := update s.csenders i
        ⟨[], [], (s.csenders i).walked ++ (s.csenders i).sends, .next⟩ } := by
  have hheld : ∀ j, (update s.csenders i
      ⟨[], [], (s.csenders i).walked ++ (s.csenders i).sends, .next⟩ j).held
      = (s.csenders j).held := by
    intro j
    by_cases hj : j = i
    · subst hj
      simp [CSender.held, hwalking]
    · rw [update_of_ne hj]
  refine ⟨fun j m hm => ?_, fun j => ?_, fun j hpos => ?_, h.owner, h.unborn, fun c => ?_, h.sound,
    fun c hc => ?_⟩
  · exact h.placed j m (hheld j ▸ hm)
  · dsimp only
    rw [hheld j]
    exact h.nodup j
  · by_cases hj : j = i
    · subst hj
      simp at hpos
    · dsimp only at hpos ⊢
      rw [update_of_ne hj] at hpos ⊢
      exact h.busy j hpos
  · rw [SendNet.pending, hheld]
    exact h.bytes c
  · rw [SendNet.pending, hheld]
    cases h.live c hc with
    | idle before hsealed hqueued hnone hfresh hwalked =>
      refine SendLive.idle before hsealed hqueued hnone hfresh ?_
      by_cases hj : c % N = i
      · subst hj
        simp
      · dsimp only
        rw [update_of_ne hj]
        exact hwalked
    | sending before m' rest' hpending hsealed hqueued hsome hplain hfresh =>
      exact SendLive.sending before m' rest' hpending hsealed hqueued hsome hplain hfresh

/-- A client is dropped: what was written stays. -/
theorem SendNet.Inv.dropClient (h : s.Inv A N) (c : Nat) : (s.dropClient c).Inv A N := by
  rw [SendNet.dropClient]
  split_ifs with hinvalid
  · exact h
  · have hvalid : (s.clients c).invalid = false := Bool.eq_false_iff.mpr hinvalid
    have hother : ∀ c', c' ≠ c → update s.clients c
        { s.clients c with invalid := true, fd := none } c' = s.clients c' :=
      fun c' hc' => update_of_ne hc' _ _
    refine ⟨h.placed, h.nodup, fun i hpos => ?_, fun fd c' => ?_, fun c' hc' => ?_, fun c' => ?_,
      fun c' => ?_, fun c' hc' => ?_⟩
    · obtain ⟨m, rest, hwalking, hsending⟩ := h.busy i hpos
      refine ⟨m, rest, hwalking, fun hno => ?_⟩
      dsimp only at hno ⊢
      by_cases hm : m.client = c
      · rw [hm, update_self] at hno
        cases hno
      · rw [hother _ hm] at hno ⊢
        exact hsending hno
    · dsimp only
      cases hfd : (s.clients c).fd with
      | none =>
        by_cases hc' : c' = c
        · rw [hc', update_self, h.owner fd c, hfd]
          exact ⟨fun hno => absurd hno.2 (Option.some_ne_none fd).symm, fun hno => by cases hno.1⟩
        · rw [hother c' hc']
          exact h.owner fd c'
      | some fd' =>
        have howns := (h.owner fd' c).mpr ⟨hvalid, hfd⟩
        by_cases hf : fd = fd'
        · rw [hf]
          dsimp only
          rw [update_self]
          refine ⟨fun hno => (by cases hno), fun hyes => ?_⟩
          by_cases hc' : c' = c
          · rw [hc', update_self] at hyes
            cases hyes.1
          · rw [hother c' hc'] at hyes
            exact absurd (Option.some.inj (((h.owner fd' c').mpr hyes).symm.trans howns)) hc'
        · dsimp only
          rw [update_of_ne hf]
          by_cases hc' : c' = c
          · rw [hc', update_self, h.owner fd c, hfd]
            refine ⟨fun hno => ?_, fun hno => by cases hno.1⟩
            exact absurd (Option.some.inj hno.2).symm hf
          · rw [hother c' hc']
            exact h.owner fd c'
    · by_cases hcc : c' = c
      · subst hcc
        exact absurd (h.unborn c' hc').1 hinvalid
      · dsimp only
        rw [hother c' hcc]
        exact h.unborn c' hc'
    · have hbytes := h.bytes c'
      dsimp only
      by_cases hcc : c' = c
      · rw [hcc, update_self]
        rw [hcc] at hbytes
        exact hbytes
      · rw [hother c' hcc]
        exact hbytes
    · have hsound := h.sound c'
      dsimp only
      by_cases hcc : c' = c
      · rw [hcc, update_self]
        rw [hcc] at hsound
        exact hsound
      · rw [hother c' hcc]
        exact hsound
    · dsimp only at hc' ⊢
      by_cases hcc : c' = c
      · rw [hcc, update_self] at hc'
        cases hc'
      · rw [hother c' hcc] at hc' ⊢
        exact h.live c' hc'

@[simp] theorem dropClient_csenders (c : Nat) : (s.dropClient c).csenders = s.csenders := by
  rw [SendNet.dropClient]
  split_ifs <;> rfl

@[simp] theorem dropClient_invalid (c : Nat) :
    ((s.dropClient c).clients c).invalid = true := by
  rw [SendNet.dropClient]
  split_ifs with h
  · exact h
  · simp

/-- A client is dropped, and its message with it. -/
theorem SendNet.Inv.dropRelease (h : s.Inv A N) (hwalking : (s.csenders i).walking = m :: rest) :
    ((s.dropClient m.client).release i m rest).Inv A N := by
  apply (h.dropClient m.client).release
  · rw [dropClient_csenders]
    exact hwalking
  · intro hvalid
    rw [dropClient_invalid] at hvalid
    cases hvalid

theorem SendNet.Inv.look (h : s.Inv A N) : (s.look A i).Inv A N := by
  rw [SendNet.look]
  cases hwalking : (s.csenders i).walking with
  | nil => exact h.collect hwalking
  | cons m rest =>
    dsimp only
    by_cases hinvalid : (s.clients m.client).invalid = true
    · rw [if_pos hinvalid]
      apply h.release hwalking
      intro hvalid
      rw [hinvalid] at hvalid
      cases hvalid
    · have hvalid : (s.clients m.client).invalid = false := Bool.eq_false_iff.mpr hinvalid
      rw [if_neg hinvalid]
      by_cases hother : (s.clients m.client).sending ≠ none ∧
          (s.clients m.client).sending ≠ some m.addr
      · rw [if_pos hother]
        exact h.keep hwalking fun _ => hother.1
      · have hgo : (s.clients m.client).sending ≠ none →
            (s.clients m.client).sending = some m.addr := by
          intro hsome
          by_contra hne
          exact hother ⟨hsome, hne⟩
        rw [if_neg hother]
        cases henc : m.sv2Encrypt with
        | true =>
          rw [if_pos rfl]
          cases hseal : sv2ConnEncrypt A (s.clients m.client).sv2c m.buf with
          | none => exact h.dropRelease hwalking
          | some r =>
            obtain ⟨ct, sv2c⟩ := r
            have hsame : (m.encrypted ct).addr = m.addr ∧ (m.encrypted ct).client = m.client ∧
                (m.encrypted ct).item = m.item ∧ (m.encrypted ct).qlen = m.qlen :=
              ⟨rfl, rfl, rfl, rfl⟩
            refine h.begin hwalking hvalid hsame rfl ?_ ?_
            · intro _ hfresh
              have hsecret : m.item.2 = true := hfresh.2.symm.trans henc
              rw [sealItem, if_pos hsecret]
              exact (congrArg _ hfresh.1.symm).trans hseal
            · intro hsome
              refine ⟨hgo hsome, fun hplain => ?_⟩
              rw [henc] at hplain
              cases hplain
        | false =>
          rw [if_neg Bool.false_ne_true]
          apply h.begin hwalking hvalid ⟨rfl, rfl, rfl, rfl⟩ henc
          · intro _ hfresh
            have hsecret : ¬ m.item.2 = true := by
              rw [show m.item.2 = false from hfresh.2.symm.trans henc]
              exact Bool.false_ne_true
            rw [sealItem, if_neg hsecret, hfresh.1]
            rfl
          · exact fun hsome => ⟨hgo hsome, fun _ => ⟨rfl, rfl⟩⟩

theorem SendNet.Inv.load (h : s.Inv A N) (hpos : (s.csenders i).pos = .writing) :
    (s.load i).Inv A N := by
  obtain ⟨m, rest, hwalking, hsending⟩ := h.busy i (by rw [hpos]; exact SenderPos.noConfusion)
  rw [SendNet.load, hwalking]
  dsimp only
  by_cases hempty : m.buf = []
  · rw [if_pos hempty]
    exact h.release hwalking fun hvalid => ⟨hempty, hsending hvalid⟩
  · rw [if_neg hempty]
    obtain ⟨hd, hborn, -⟩ := h.mem_placed hwalking
    have hsame : ∀ pos, CSender.held { s.csenders i with pos := pos } = (s.csenders i).held :=
      fun _ => rfl
    apply h.sender hd hborn
    · intro j hj
      exact update_of_ne hj _ _
    · intro c _
      rfl
    · intro c _
      rfl
    · rfl
    · rfl
    · rfl
    · exact ⟨rfl, rfl⟩
    · intro c _
      simp [hsame]
    · intro c _
      simp
    · simpa [hsame] using h.placed i
    · simpa [hsame] using h.nodup i
    · intro _
      exact ⟨m, rest, by simpa using hwalking, hsending⟩
    · have hbytes := h.bytes m.client
      rw [SendNet.pending, hd] at hbytes
      simpa [hsame] using hbytes
    · exact h.sound m.client
    · intro hvalid
      have hlive := h.live m.client hvalid
      rw [SendNet.pending, hd] at hlive
      simpa [hsame] using hlive

/-- Bytes of the message that is being sent go to the socket of its client. -/
theorem SendNet.Inv.write (h : s.Inv A N) {n : Nat} {fd : Option Nat}
    (hpos : (s.csenders i).pos = .loaded fd) (hheld : s.Held (.write i n)) :
    (s.write i n fd).Inv A N := by
  obtain ⟨m, rest, hwalking, hsending⟩ := h.busy i (by rw [hpos]; exact SenderPos.noConfusion)
  rw [SendNet.write, hwalking]
  dsimp only
  cases hopen : fd.bind s.fds with
  | none => exact h.dropRelease hwalking
  | some c =>
    dsimp only
    by_cases hn : 0 < n ∧ n ≤ m.buf.length
    · rw [if_pos hn]
      obtain ⟨fd', rfl, hfd⟩ := Option.bind_eq_some_iff.mp hopen
      have hc : c = m.client := hheld m (by rw [hwalking]; rfl) c (by rw [hpos]; exact hfd)
      subst hc
      have hvalid := ((h.owner fd' m.client).mp hfd).1
      obtain ⟨hd, hborn, halloc⟩ := h.mem_placed hwalking
      have hold := CSender.held_eq hwalking
      have hnew : ∀ pos, CSender.held
          { s.csenders i with walking := m.advance n :: rest, pos := pos }
          = (s.csenders i).walked ++ m.advance n ::
            (rest ++ (s.csenders i).sends) := by
        intro pos
        simp [CSender.held]
      -- the message is the one that is being sent
      obtain ⟨before, hsealed, hqueued, hwalked, hfresh⟩ : ∃ before,
          sealQueue A (s.clients m.client).opened (before ++ [m.item])
            = some (s.sockets m.client ++ m.buf, (s.clients m.client).sv2c) ∧
          (s.clients m.client).queued = before ++ (m :: mine m.client
            (rest ++ (s.csenders i).sends)).map SenderSend.item ∧
          mine m.client (s.csenders i).walked = [] ∧
          (m.sv2Encrypt = false ∧
            ∀ x ∈ mine m.client (rest ++ (s.csenders i).sends), x.Fresh) := by
        cases h.live m.client hvalid with
        | idle before hsealed hqueued hnone hfresh hwalked =>
          rw [hsending hvalid] at hnone
          cases hnone
        | sending before m' rest' hpending hsealed hqueued hsome hplain hfresh =>
          obtain ⟨hwalked, rfl, rfl⟩ := h.sending_first hwalking hpending
            (Option.some.inj (hsome.symm.trans (hsending hvalid)))
          rw [hpending] at hqueued
          exact ⟨before, hsealed, hqueued, hwalked, hplain, hfresh⟩
      have hsealed' : sealQueue A (s.clients m.client).opened (before ++ [m.item])
          = some (s.sockets m.client ++ m.buf.take n ++ m.buf.drop n,
            (s.clients m.client).sv2c) := by
        rw [hsealed, List.append_assoc, List.take_append_drop]
      apply h.sender hd hborn
      · intro j hj
        exact update_of_ne hj _ _
      · intro c _
        rfl
      · intro c hc
        exact update_of_ne hc _ _
      · rfl
      · rfl
      · rfl
      · exact ⟨rfl, rfl⟩
      · -- only the message that is written has other bytes
        intro c hc
        simp only [update_self]
        rw [hnew, hold]
        exact mine_replace (m.advance_client n) hc _ _
      · intro c _
        simp
      · -- every message keeps its place
        intro x hx
        simp only [update_self] at hx
        rw [hnew] at hx
        rcases List.mem_append.mp hx with hbefore | hrest
        · exact h.placed i x (hold ▸ List.mem_append_left _ hbefore)
        · rcases List.mem_cons.mp hrest with rfl | hrest
          · exact ⟨hd, hborn, halloc⟩
          · exact h.placed i x (hold ▸ List.mem_append_right _ (List.mem_cons_of_mem _ hrest))
      · have hnodup := h.nodup i
        rw [hold, List.map_append, List.map_cons] at hnodup
        simp only [update_self]
        rw [hnew, List.map_append, List.map_cons]
        exact hnodup
      · intro _
        simp only [update_self]
        exact ⟨_, rest, rfl, hsending⟩
      · -- and counts as long as before
        have hbytes := h.bytes m.client
        rw [SendNet.pending, hd, hold, mine_append, mine_cons_of_eq rfl, List.map_append,
          List.map_cons] at hbytes
        simp only [update_self]
        rw [hnew, mine_append, mine_cons_of_eq (m.advance_client n), List.map_append,
          List.map_cons]
        exact hbytes
      · -- what is on the wire is the start of its text
        simp only [update_self]
        refine ⟨before ++ [m.item], _, _, ⟨(mine m.client (rest ++ (s.csenders i).sends)).map
          SenderSend.item, ?_⟩, hsealed', List.prefix_append _ _⟩
        rw [hqueued, List.append_assoc]
        rfl
      · -- and what is left of the text is what is left to write
        intro _
        simp only [update_self]
        rw [hnew, mine_append, hwalked, List.nil_append, mine_cons_of_eq (m.advance_client n)]
        exact SendLive.sending before (m.advance n) _ rfl hsealed' hqueued
          (hsending hvalid) hfresh.1 hfresh.2
    · rw [if_neg hn]
      exact h

/-- A message is queued behind the others of its client. -/
theorem SendNet.Inv.queue (h : s.Inv A N) (c : Nat) (plain : Bytes) (secret : Bool) :
    (s.step A N (.queue c plain secret)).Inv A N := by
  rw [SendNet.step]
  split_ifs with hborn
  · let m : SenderSend := ⟨s.allocs, c, plain, secret, plain, secret, plain.length⟩
    have hfresh : m.Fresh := ⟨rfl, rfl⟩
    -- the message is held behind what its thread holds
    have hheld : CSender.held { s.csenders (c % N) with sends := (s.csenders (c % N)).sends ++ [m] }
        = (s.csenders (c % N)).held ++ [m] := by
      simp [CSender.held]
    have hmine : mine c ((s.csenders (c % N)).held ++ [m]) = s.pending N c ++ [m] := by
      rw [mine_append, mine_cons_of_eq (show m.client = c from rfl), mine_nil]
      rfl
    apply h.sender rfl hborn.1
    · exact fun j hj => update_of_ne hj _ _
    · exact fun c' hc' => update_of_ne hc' _ _
    · exact fun _ _ => rfl
    · rfl
    · exact Nat.le_succ _
    · rfl
    · dsimp only
      rw [update_self]
      exact ⟨rfl, rfl⟩
    · -- it is no message of another client
      intro c' hc'
      dsimp only
      rw [update_self, hheld, mine_append, mine_cons_of_ne fun heq : c = c' => hc' heq.symm,
        mine_nil, List.append_nil]
    · intro c' _
      dsimp only
      rw [update_self]
    · dsimp only
      rw [update_self, hheld]
      intro x hx
      rcases List.mem_append.mp hx with hold | hnew
      · obtain ⟨hclient, hid, haddr⟩ := h.placed _ x hold
        exact ⟨hclient, hid, haddr.trans (Nat.lt_succ_self _)⟩
      · rw [List.mem_singleton.mp hnew]
        exact ⟨rfl, hborn.1, Nat.lt_succ_self _⟩
    · -- its address is the next one, and no other message has that
      dsimp only
      rw [update_self, hheld, List.map_append, List.nodup_append]
      refine ⟨h.nodup _, List.nodup_singleton _, fun a ha b hb heq => ?_⟩
      obtain ⟨x, hx, rfl⟩ := List.mem_map.mp ha
      have haddr := (h.placed _ x hx).2.2
      rw [heq, List.mem_singleton.mp hb] at haddr
      exact absurd haddr (Nat.lt_irrefl _)
    · -- what the thread is busy with stays
      dsimp only
      rw [update_self]
      intro hpos
      obtain ⟨x, rest, hwalking, hsending⟩ := h.busy _ hpos
      refine ⟨x, rest, hwalking, ?_⟩
      by_cases hx : x.client = c
      · rw [hx] at hsending ⊢
        rw [update_self]
        exact hsending
      · rw [update_of_ne hx]
        exact hsending
    · -- its bytes are counted
      dsimp only
      rw [update_self, update_self, hheld, hmine, List.map_append,
        List.sum_append]
      have hbytes := h.bytes c
      simp [hbytes, m]
    · -- what is on the wire was in front of it
      dsimp only
      rw [update_self]
      obtain ⟨before, text, sv2c, hfront, hsealed, hsocket⟩ := h.sound c
      exact ⟨before, text, sv2c, hfront.trans (List.prefix_append _ _), hsealed, hsocket⟩
    · dsimp only
      rw [update_self, update_self, hheld, hmine]
      intro hvalid
      have hqueue : (s.clients c).queued ++ [m.item] = (s.clients c).queued ++ [(plain, secret)] :=
        rfl
      cases h.live c hvalid with
      | idle before hsealed hqueued hnone hall hnil =>
        refine SendLive.idle before hsealed ?_ hnone ?_ hnil
        · dsimp only
          rw [← hqueue, hqueued, List.map_append, List.append_assoc]
          rfl
        · intro x hx
          rcases List.mem_append.mp hx with hold | hnew
          · exact hall x hold
          · rw [List.mem_singleton.mp hnew]
            exact hfresh
      | sending before m' rest hfirst hsealed hqueued hsome hplain hall =>
        refine SendLive.sending before m' (rest ++ [m]) ?_ hsealed ?_ hsome hplain ?_
        · rw [hfirst]
          rfl
        · dsimp only
          rw [← hqueue, hqueued, List.map_append, List.append_assoc]
          rfl
        · intro x hx
          rcases List.mem_append.mp hx with hold | hnew
          · exact hall x hold
          · rw [List.mem_singleton.mp hnew]
            exact hfresh
  · exact h

/-- A client that is accepted has nothing queued and nothing written. -/
theorem SendNet.Inv.accept (h : s.Inv A N) (c fd : Nat) (sv2c : Option (NoiseSession κ)) :
    (s.step A N (.accept c fd sv2c)).Inv A N := by
  rw [SendNet.step]
  split_ifs with hnew
  · obtain ⟨hborn, hfree⟩ := hnew
    have hnone : s.pending N c = [] := by
      apply mine_eq_nil
      intro m hm heq
      exact absurd (h.placed _ m hm).2.1 (not_lt.mpr (heq ▸ hborn))
    have hwalked : mine c (s.csenders (c % N)).walked = [] := by
      apply mine_eq_nil
      intro m hm heq
      have hheld : m ∈ (s.csenders (c % N)).held :=
        List.mem_append_left _ (List.mem_append_left _ hm)
      exact absurd (h.placed _ m hheld).2.1 (not_lt.mpr (heq ▸ hborn))
    have hsocket := (h.unborn c hborn).2
    have hclients : ∀ c', c' ≠ c → ∀ client,
        update s.clients c client c' = s.clients c' :=
      fun c' hc' _ => update_of_ne hc' _ _
    refine ⟨fun j m hm => ?_, h.nodup, fun j hpos => ?_, fun fd' c' => ?_, fun c' hc' => ?_,
      fun c' => ?_, fun c' => ?_, fun c' hc' => ?_⟩
    · obtain ⟨hclient, hid, halloc⟩ := h.placed j m hm
      exact ⟨hclient, (hid.trans_le hborn).trans (Nat.lt_succ_self _), halloc⟩
    · obtain ⟨m, rest, hwalking, hsending⟩ := h.busy j hpos
      have hm : m ∈ (s.csenders j).held := by
        rw [CSender.held_eq hwalking]
        exact List.mem_append_right _ List.mem_cons_self
      have hne : m.client ≠ c :=
        fun heq => absurd (h.placed j m hm).2.1 (not_lt.mpr (heq ▸ hborn))
      refine ⟨m, rest, hwalking, ?_⟩
      dsimp only
      rw [hclients _ hne]
      exact hsending
    · -- the descriptor was free
      dsimp only
      by_cases hf : fd' = fd
      · subst hf
        rw [update_self]
        by_cases hc' : c' = c
        · rw [hc', update_self]
          exact ⟨fun _ => ⟨rfl, rfl⟩, fun _ => rfl⟩
        · rw [hclients c' hc', ← h.owner fd' c', hfree]
          exact ⟨fun heq => absurd (Option.some.inj heq).symm hc', fun hno => by cases hno⟩
      · rw [update_of_ne hf, h.owner fd' c']
        by_cases hc' : c' = c
        · rw [hc', update_self, (h.unborn c hborn).1]
          exact ⟨fun hno => (by cases hno.1), fun hno => absurd (Option.some.inj hno.2).symm hf⟩
        · rw [hclients c' hc']
    · have hlt : c < c' := hc'
      dsimp only
      rw [hclients c' (Nat.ne_of_gt hlt)]
      exact h.unborn c' (hborn.trans hlt.le)
    · have hbytes := h.bytes c'
      by_cases hcc : c' = c
      · subst hcc
        show _ = ((((s.pending N c').map SenderSend.qlen).sum : Nat) : Int)
        rw [hnone]
        simp
      · dsimp only
        rw [hclients c' hcc]
        exact hbytes
    · dsimp only
      by_cases hcc : c' = c
      · rw [hcc, update_self, hsocket]
        exact ⟨[], [], sv2c, List.prefix_rfl, rfl, List.prefix_rfl⟩
      · rw [hclients c' hcc]
        exact h.sound c'
    · dsimp only at hc' ⊢
      by_cases hcc : c' = c
      · subst hcc
        show SendLive A _ _ _ (s.pending N c')
        rw [update_self, hsocket, hnone, hwalked]
        exact SendLive.idle [] rfl rfl rfl (fun m hm => absurd hm List.not_mem_nil) rfl
      · rw [hclients c' hcc] at hc' ⊢
        exact h.live c' hc'
  · exact h

/-- **The step lemma.** -/
theorem SendNet.Inv.step (h : s.Inv A N) {e : SendEvent κ} (hheld : s.Held e) :
    (s.step A N e).Inv A N := by
  cases e with
  | accept c fd sv2c => exact h.accept c fd sv2c
  | queue c plain secret => exact h.queue c plain secret
  | drop c => exact h.dropClient c
  | look i =>
    rw [SendNet.step]
    split_ifs
    · exact h.look
    · exact h
  | load i =>
    rw [SendNet.step]
    split_ifs with hpos
    · exact h.load hpos
    · exact h
  | write i n =>
    rw [SendNet.step]
    cases hpos : (s.csenders i).pos with
    | loaded fd => exact h.write hpos hheld
    | _ => exact h
  | stall i =>
    rw [SendNet.step]
    cases hpos : (s.csenders i).pos with
    | loaded fd =>
      obtain ⟨m, rest, hwalking, hsending⟩ :=
        h.busy i (by rw [hpos]; exact SenderPos.noConfusion)
      rw [hwalking]
      refine h.keep hwalking fun hvalid => ?_
      rw [hsending hvalid]
      exact Option.some_ne_none _
    | _ => exact h
  | fail i =>
    rw [SendNet.step]
    cases hpos : (s.csenders i).pos with
    | loaded fd =>
      obtain ⟨m, rest, hwalking, -⟩ := h.busy i (by rw [hpos]; exact SenderPos.noConfusion)
      rw [hwalking]
      exact h.dropRelease hwalking
    | _ => exact h

end Inv

/-! ### Every run -/

section Run

/-- What was written to the socket of each client is the start of the text of the messages that
were queued for it, in order, each frame encrypted once; and the bytes that are counted for it
are those of its messages that were not released. -/
def SendNet.InOrder (A : Aead κ) (N : Nat) (s : SendNet κ) : Prop :=
  ∀ c, SendSound A (s.clients c) (s.sockets c) ∧
    (s.clients c).queuedBytes = (((s.pending N c).map SenderSend.qlen).sum : Nat)

/-- However the threads interleave, as long as no descriptor is written to that has passed to
another client: everything is in order, and a client that was not dropped and has nothing left
in its queue was sent all of it. -/
theorem sent_in_order (A : Aead κ) (nsenders : Nat) (events : List (SendEvent κ))
    (hheld : Along (SendNet.step A nsenders) SendNet.Held SendNet.start events) :
    let s := run (SendNet.step A nsenders) SendNet.start events
    s.InOrder A nsenders ∧
    ∀ c, (s.clients c).invalid = false → s.pending nsenders c = [] →
      sealQueue A (s.clients c).opened (s.clients c).queued
        = some (s.sockets c, (s.clients c).sv2c) := by
  intro s
  have hinv : s.Inv A nsenders :=
    run_invariant (I := fun s : SendNet κ => s.Inv A nsenders)
      (fun _ _ hheld hinv => hinv.step hheld) hheld (SendNet.start_inv A nsenders)
  refine ⟨fun c => ⟨hinv.sound c, hinv.bytes c⟩, fun c hvalid hempty => ?_⟩
  cases hinv.live c hvalid with
  | idle before hsealed hqueued _ _ _ =>
    rw [hempty] at hqueued
    rw [hqueued, List.map_nil, List.append_nil]
    exact hsealed
  | sending before m rest hfirst _ _ _ _ _ =>
    rw [hempty] at hfirst
    cases hfirst

/-- A message in two writes, between which another is queued. -/
theorem two_messages_in_order :
    let events : List (SendEvent Bool) := [.accept 0 7 none, .queue 0 [1, 2, 3] false, .look 0,
      .look 0, .load 0, .write 0 2, .queue 0 [4] false, .load 0, .stall 0, .look 0, .look 0,
      .load 0, .write 0 1, .load 0, .look 0, .load 0, .write 0 1, .load 0]
    let s := run (SendNet.step plainAead 1) SendNet.start events
    s.sockets 0 = [1, 2, 3, 4] ∧ SendSound plainAead (s.clients 0) [1, 2, 3, 4] := by
  intro events s
  have hsocket : s.sockets 0 = [1, 2, 3, 4] := by decide
  have hheld : Along (SendNet.step plainAead 1) SendNet.Held SendNet.start events := by
    decide
  have hall := (sent_in_order plainAead 1 events hheld).1 0
  exact ⟨hsocket, hsocket ▸ hall.1⟩

/-- A client is dropped between the reading of its descriptor and the write, and the next client
is given the descriptor: the message goes to that one. -/
theorem reused_descriptor :
    ¬ ∀ events : List (SendEvent Bool),
      (run (SendNet.step plainAead 1) SendNet.start events).InOrder plainAead 1 := by
  intro hall
  let events : List (SendEvent Bool) := [.accept 0 7 none, .queue 0 [1, 2, 3] false, .look 0,
    .look 0, .load 0, .drop 0, .accept 1 7 none, .write 0 3]
  have hwritten : (run (SendNet.step plainAead 1) SendNet.start events).sockets 1 = [1, 2, 3] := by
    decide
  have hnone : ((run (SendNet.step plainAead 1) SendNet.start events).clients 1).queued = [] := by
    decide
  obtain ⟨⟨before, text, sv2c, hfront, hsealed, hsocket⟩, -⟩ := hall events 1
  rw [hnone, List.prefix_nil] at hfront
  rw [hfront] at hsealed
  obtain ⟨rfl, -⟩ := Prod.mk.inj (Option.some.inj hsealed)
  rw [hwritten, List.prefix_nil] at hsocket
  cases hsocket

end Run

end CashStratum
