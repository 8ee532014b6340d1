import ZeusLe.FtpSockets
import ZeusLe.Library.Owners

/-!
The FTP server as a whole: `lftpd_run` accepts connections and hands each to one of
the threads that wait for it in `lftpd_conn_run`. All sessions take their sockets
from one table.
-/

namespace ZeusLe.FtpDispatch

open ZeusLe.Library.Handles
open ZeusLe.Library.Owners
open ZeusLe.Library.Run
open ZeusLe.Ftp
open ZeusLe.FtpFiles
open ZeusLe.FtpLine
open ZeusLe.FtpServer
open ZeusLe.FtpSockets

/-- What a session does with sockets, from its control socket to its end. -/
structure Plan (control : Nat) where
  ops : List (Op Nat)
  valid : Along hold Valid [control] ops
  closed : run hold [control] ops = []

/-- The sessions of `handle_control_channel` in which no PASV command loses its
listening socket. -/
def Plan.ofSession {fs : FileSystem} (baseDir : Bytes) {conn : Conn}
    (hconn : conn.dataSocket = none) (files : fs.State) (session : Session)
    (hfresh : FreshSockets session.socket (serve baseDir conn files session))
    (hkeeps : SessionKeeps baseDir conn files session) : Plan session.socket where
  ops := socketOps session.socket (serve baseDir conn files session)
  valid := ((serve_owned_iff baseDir hconn files session hfresh).mpr hkeeps).valid
  closed := ((serve_owned_iff baseDir hconn files session hfresh).mpr hkeeps).closed

/-- A thread in `lftpd_conn_run`. -/
inductive Worker where
  | idle
  /-- In `k_mbox_get`. -/
  | waiting
  | serving (rest : List (Op Nat))
  deriving DecidableEq, Repr

structure Server (T : Type) where
  /-- The sockets; `none` stands for the thread that accepts connections. -/
  table : Table (Option T) Nat
  /-- `server_socket`, until accepting fails. -/
  listening : Option Nat
  /-- `client_socket`, until it is handed on. -/
  accepted : Option Nat
  /-- The threads that wait, in the order in which they get messages. -/
  connMbox : List T
  worker : T → Worker
  connections : List Nat
  /-- Who got each connection, or `none` when it was closed. -/
  log : List (Nat × Option T)

inductive Event (T : Type) where
  | accept (clientSocket : Option Nat)
  /-- The connection is handed on; `ops` are those of its session, if there is one. -/
  | put (ops : List (Op Nat))
  | get (t : T)
  /-- A thread goes on with its session. -/
  | work (t : T)
  deriving DecidableEq, Repr

variable {T : Type}

section

variable [DecidableEq T]

def step (s : Server T) : Event T → Server T
  | .accept clientSocket =>
      match s.listening, s.accepted, clientSocket with
      | some _, none, some client =>
          { s with
            table := s.table.op none (.acquire client)
            accepted := some client
            connections := s.connections ++ [client] }
      | some listener, none, none =>
          { s with table := s.table.op none (.release listener), listening := none }
      | _, _, _ => s
  | .put ops =>
      match s.accepted, s.connMbox with
      | some client, [] =>
          { s with
            table := s.table.op none (.release client)
            accepted := none
            log := s.log ++ [(client, none)] }
      | some client, t :: rest =>
          { s with
            table := s.table.give none (some t) client
            accepted := none
            connMbox := rest
            worker := Function.update s.worker t (.serving ops)
            log := s.log ++ [(client, some t)] }
      | none, _ => s
  | .get t =>
      match s.worker t with
      | .idle =>
          { s with
            connMbox := s.connMbox ++ [t], worker := Function.update s.worker t .waiting }
      | _ => s
  | .work t =>
      match s.worker t with
      | .serving (op :: rest) =>
          { s with
            table := s.table.op (some t) op
            worker := Function.update s.worker t (.serving rest) }
      | .serving [] => { s with worker := Function.update s.worker t .idle }
      | _ => s

end

/-- After `lftpd_init`. -/
def initial (listener : Nat) : Server T where
  table := ⟨[listener], fun o => if o = none then [listener] else []⟩
  listening := some listener
  accepted := none
  connMbox := []
  worker _ := .idle
  connections := []
  log := []

/-- The network hands out sockets that are not in use, and sessions keep to a plan. -/
def Allowed (s : Server T) : Event T → Prop
  | .accept clientSocket => ∀ client, clientSocket = some client → client ∉ s.table.opened
  | .put ops => ∀ client, s.accepted = some client → ∃ plan : Plan client, plan.ops = ops
  | .get _ => True
  | .work t => ∀ op rest, s.worker t = .serving (op :: rest) → Fresh s.table.opened op

/-- The threads that wait, and where the connections went. -/
structure Dispatched (s : Server T) : Prop where
  waiting : ∀ t, t ∈ s.connMbox ↔ s.worker t = .waiting
  nodup : s.connMbox.Nodup
  logged : s.connections = s.log.map Prod.fst ++ s.accepted.toList

/-- The sockets: those of the accepting thread, and those that a session will close. -/
structure Held (s : Server T) : Prop where
  owned : Owned s.table
  server : s.table.holds none = s.accepted.toList ++ s.listening.toList
  plan : ∀ t rest, s.worker t = .serving rest →
    Along hold Valid (s.table.holds (some t)) rest ∧ run hold (s.table.holds (some t)) rest = []
  quiet : ∀ t, (∀ rest, s.worker t ≠ .serving rest) → s.table.holds (some t) = []

theorem allowed_put {s : Server T} {client : Nat} (haccepted : s.accepted = some client)
    (plan : Plan client) : Allowed s (.put plan.ops) := by
  intro other hother
  obtain rfl := Option.some.inj (haccepted.symm.trans hother)
  exact ⟨plan, rfl⟩

theorem allowed_session {fs : FileSystem} (baseDir : Bytes) {conn : Conn}
    (hconn : conn.dataSocket = none) (files : fs.State) {session : Session}
    (hfresh : FreshSockets session.socket (serve baseDir conn files session))
    (hkeeps : SessionKeeps baseDir conn files session) {s : Server T}
    (haccepted : s.accepted = some session.socket) :
    Allowed s (.put (socketOps session.socket (serve baseDir conn files session))) :=
  allowed_put haccepted (Plan.ofSession baseDir hconn files session hfresh hkeeps)

theorem allowed_accept {s : Server T} {client : Nat} (hfresh : client ∉ s.table.opened) :
    Allowed s (.accept (some client)) := by
  intro other hother
  obtain rfl := Option.some.inj hother
  exact hfresh

theorem allowed_work {s : Server T} {t : T} {op : Op Nat} {rest : List (Op Nat)}
    (hserving : s.worker t = .serving (op :: rest)) (hfresh : Fresh s.table.opened op) :
    Allowed s (.work t) := by
  intro op' rest' hother
  rw [hserving] at hother
  obtain ⟨rfl, -⟩ := List.cons.inj (Worker.serving.inj hother)
  exact hfresh

theorem dispatched_initial (listener : Nat) : Dispatched (initial listener : Server T) := by
  constructor
  · intro t
    simp [initial]
  · exact List.nodup_nil
  · rfl

theorem held_initial (listener : Nat) : Held (initial listener : Server T) := by
  constructor
  · constructor
    · exact List.nodup_singleton listener
    · intro h
      constructor
      · intro hmem
        exact ⟨none, hmem⟩
      · rintro ⟨_ | t, hmem⟩
        · exact hmem
        · exact absurd hmem List.not_mem_nil
    · rintro (_ | t)
      · exact List.nodup_singleton listener
      · exact List.nodup_nil
    · rintro (_ | t) (_ | t') h hmem hmem'
      · rfl
      · exact absurd hmem' List.not_mem_nil
      · exact absurd hmem List.not_mem_nil
      · exact absurd hmem List.not_mem_nil
  · rfl
  · intro t rest hserving
    exact Worker.noConfusion hserving
  · intro t _
    rfl

/-- The operation on a socket in a step, and whose it is. -/
def operation (s : Server T) : Event T → Option (Option T × Op Nat)
  | .accept clientSocket =>
      match s.listening, s.accepted, clientSocket with
      | some _, none, some client => some (none, .acquire client)
      | some listener, none, none => some (none, .release listener)
      | _, _, _ => none
  | .put _ =>
      match s.accepted, s.connMbox with
      | some client, [] => some (none, .release client)
      | _, _ => none
  | .get _ => none
  | .work t =>
      match s.worker t with
      | .serving (op :: _) => some (some t, op)
      | _ => none

theorem valid_operation {s : Server T} (hs : Held s) {event : Event T} {o : Option T}
    {op : Op Nat} (h : operation s event = some (o, op)) : Valid (s.table.holds o) op := by
  have hserver := hs.server
  cases event with
  | accept clientSocket =>
      simp only [operation] at h
      split at h
      · cases h
        exact trivial
      · rename_i listener hlistening haccepted
        cases h
        rw [hlistening] at hserver
        exact hserver ▸ List.mem_append_right _ (List.mem_singleton_self listener)
      · cases h
  | put ops =>
      simp only [operation] at h
      split at h
      · rename_i client haccepted hmbox
        cases h
        rw [haccepted] at hserver
        exact hserver ▸ List.mem_cons_self
      · cases h
  | get t => cases h
  | work t =>
      simp only [operation] at h
      split at h
      · rename_i op' rest hserving
        cases h
        exact (hs.plan t (op :: rest) hserving).1.1
      · cases h

theorem Dispatched.not_mem_connMbox {s : Server T} (hs : Dispatched s) {t : T}
    (ht : s.worker t ≠ .waiting) : t ∉ s.connMbox :=
  mt (hs.waiting t).mp ht

variable [DecidableEq T]

theorem Dispatched.waiting_update {s : Server T} (hs : Dispatched s) {t : T} {w : Worker}
    {connMbox : List T} (hother : ∀ other, other ≠ t → (other ∈ connMbox ↔ other ∈ s.connMbox))
    (hself : t ∈ connMbox ↔ w = .waiting) (other : T) :
    other ∈ connMbox ↔ Function.update s.worker t w other = .waiting := by
  by_cases heq : other = t
  · subst heq
    rw [Function.update_self]
    exact hself
  · rw [Function.update_of_ne heq, ← hs.waiting]
    exact hother other heq

theorem dispatched_accept {s : Server T} (hs : Dispatched s) (clientSocket : Option Nat) :
    Dispatched (step s (.accept clientSocket)) := by
  simp only [step]
  split
  · rename_i client hlistening haccepted
    have hlogged := hs.logged
    rw [haccepted, Option.toList_none, List.append_nil] at hlogged
    refine ⟨hs.waiting, hs.nodup, ?_⟩
    simp only [hlogged]
    rfl
  · exact ⟨hs.waiting, hs.nodup, hs.logged⟩
  · exact hs

theorem dispatched_put {s : Server T} (hs : Dispatched s) (ops : List (Op Nat)) :
    Dispatched (step s (.put ops)) := by
  simp only [step]
  have hlogged := hs.logged
  split
  · rename_i client haccepted hmbox
    rw [haccepted, Option.toList_some] at hlogged
    exact ⟨hs.waiting, hs.nodup, by simp [hlogged]⟩
  · rename_i client t rest haccepted hmbox
    rw [haccepted, Option.toList_some] at hlogged
    have hnodup := hs.nodup
    rw [hmbox, List.nodup_cons] at hnodup
    refine ⟨hs.waiting_update ?_ ?_, hnodup.2, ?_⟩
    · intro other hother
      rw [hmbox, List.mem_cons]
      exact ⟨Or.inr, fun h => h.resolve_left hother⟩
    · exact iff_of_false hnodup.1 fun h => Worker.noConfusion h
    · simp [hlogged]
  · exact hs

theorem dispatched_get {s : Server T} (hs : Dispatched s) (t : T) :
    Dispatched (step s (.get t)) := by
  simp only [step]
  split
  · rename_i hidle
    have hnot : t ∉ s.connMbox := by
      apply hs.not_mem_connMbox
      rw [hidle]
      exact fun h => Worker.noConfusion h
    refine ⟨hs.waiting_update ?_ ?_, ?_, hs.logged⟩
    · intro other hother
      rw [List.mem_append, List.mem_singleton]
      exact or_iff_left hother
    · exact iff_of_true (List.mem_append_right _ (List.mem_singleton_self t)) rfl
    · exact hs.nodup.append (List.nodup_singleton t)
        (List.disjoint_singleton.mpr hnot)
  · exact hs

theorem dispatched_work {s : Server T} (hs : Dispatched s) (t : T) :
    Dispatched (step s (.work t)) := by
  have hmbox {rest : List (Op Nat)} (hserving : s.worker t = .serving rest) {w : Worker}
      (hw : w ≠ .waiting) (other : T) :
      other ∈ s.connMbox ↔ Function.update s.worker t w other = .waiting := by
    refine hs.waiting_update (fun _ _ => Iff.rfl) (iff_of_false ?_ hw) other
    apply hs.not_mem_connMbox
    rw [hserving]
    exact fun h => Worker.noConfusion h
  simp only [step]
  split
  · rename_i op rest hserving
    exact ⟨hmbox hserving fun h => Worker.noConfusion h, hs.nodup, hs.logged⟩
  · rename_i hserving
    exact ⟨hmbox hserving fun h => Worker.noConfusion h, hs.nodup, hs.logged⟩
  · exact hs

theorem dispatched_step (s : Server T) (event : Event T) (hs : Dispatched s) :
    Dispatched (step s event) := by
  cases event with
  | accept clientSocket => exact dispatched_accept hs clientSocket
  | put ops => exact dispatched_put hs ops
  | get t => exact dispatched_get hs t
  | work t => exact dispatched_work hs t

theorem Held.plan_of_op {s : Server T} (hs : Held s) (op : Op Nat) (t : T)
    (rest : List (Op Nat)) (hserving : s.worker t = .serving rest) :
    Along hold Valid ((s.table.op none op).holds (some t)) rest ∧
      run hold ((s.table.op none op).holds (some t)) rest = [] := by
  rw [s.table.op_holds_of_ne (Option.some_ne_none t)]
  exact hs.plan t rest hserving

theorem Held.quiet_of_op {s : Server T} (hs : Held s) (op : Op Nat) (t : T)
    (hquiet : ∀ rest, s.worker t ≠ .serving rest) : (s.table.op none op).holds (some t) = [] := by
  rw [s.table.op_holds_of_ne (Option.some_ne_none t)]
  exact hs.quiet t hquiet

section

variable {s : Server T} (hs : Held s) {table : Table (Option T) Nat} {t : T} {w : Worker}
include hs

theorem Held.plan_update
    (hother : ∀ other, other ≠ t → table.holds (some other) = s.table.holds (some other))
    (hself : ∀ rest, w = .serving rest → Along hold Valid (table.holds (some t)) rest ∧
      run hold (table.holds (some t)) rest = [])
    (other : T) (rest : List (Op Nat))
    (hserving : Function.update s.worker t w other = .serving rest) :
    Along hold Valid (table.holds (some other)) rest ∧
      run hold (table.holds (some other)) rest = [] := by
  by_cases heq : other = t
  · subst heq
    rw [Function.update_self] at hserving
    exact hself rest hserving
  · rw [Function.update_of_ne heq] at hserving
    rw [hother other heq]
    exact hs.plan other rest hserving

theorem Held.quiet_update
    (hother : ∀ other, other ≠ t → table.holds (some other) = s.table.holds (some other))
    (hself : (∀ rest, w ≠ .serving rest) → table.holds (some t) = []) (other : T)
    (hquiet : ∀ rest, Function.update s.worker t w other ≠ .serving rest) :
    table.holds (some other) = [] := by
  by_cases heq : other = t
  · subst heq
    rw [Function.update_self] at hquiet
    exact hself hquiet
  · rw [Function.update_of_ne heq] at hquiet
    rw [hother other heq]
    exact hs.quiet other hquiet

end

theorem held_accept {s : Server T} (hs : Held s) {clientSocket : Option Nat}
    (hfresh : ∀ client, clientSocket = some client → client ∉ s.table.opened) :
    Held (step s (.accept clientSocket)) := by
  have hserver := hs.server
  simp only [step]
  split
  · rename_i client hlistening haccepted
    rw [haccepted, Option.toList_none, List.nil_append] at hserver
    refine ⟨hs.owned.acquire none (hfresh client rfl), ?_, hs.plan_of_op _, hs.quiet_of_op _⟩
    simp only [Table.op_holds_self, hold, hserver]
    rfl
  · rename_i listener hlistening haccepted
    rw [haccepted, hlistening, Option.toList_none, List.nil_append, Option.toList_some] at hserver
    have hmine : listener ∈ s.table.holds none := by
      rw [hserver]
      exact List.mem_singleton_self listener
    refine ⟨hs.owned.release hmine, ?_, hs.plan_of_op _, hs.quiet_of_op _⟩
    simp only [Table.op_holds_self, hold, hserver, haccepted, List.erase_cons_head]
    rfl
  · exact hs

theorem held_put {s : Server T} (hs : Held s) (hthreads : Dispatched s) {ops : List (Op Nat)}
    (hplan : ∀ client, s.accepted = some client → ∃ plan : Plan client, plan.ops = ops) :
    Held (step s (.put ops)) := by
  have hserver := hs.server
  have hmine {client : Nat} (haccepted : s.accepted = some client) :
      client ∈ s.table.holds none := by
    rw [hserver, haccepted]
    exact List.mem_cons_self
  simp only [step]
  split
  · rename_i client haccepted hmbox
    refine ⟨hs.owned.release (hmine haccepted), ?_, hs.plan_of_op _, hs.quiet_of_op _⟩
    simp only [Table.op_holds_self, hold, hserver, haccepted, Option.toList_some,
      List.singleton_append, List.erase_cons_head]
    rfl
  · rename_i client t rest haccepted hmbox
    have hwaiting : s.worker t = .waiting := by
      rw [← hthreads.waiting, hmbox]
      exact List.mem_cons_self
    have hidle : s.table.holds (some t) = [] := by
      apply hs.quiet
      intro rest hserving
      rw [hwaiting] at hserving
      exact Worker.noConfusion hserving
    have hne : (none : Option T) ≠ some t := (Option.some_ne_none t).symm
    obtain ⟨plan, rfl⟩ := hplan client haccepted
    have hothers (other : T) (hother : other ≠ t) :
        (s.table.give none (some t) client).holds (some other) = s.table.holds (some other) :=
      s.table.give_holds_of_ne (Option.some_ne_none other)
        (fun h => hother (Option.some.inj h)) client
    refine ⟨hs.owned.give hne (hmine haccepted), ?_, hs.plan_update hothers ?_,
      hs.quiet_update hothers ?_⟩
    · simp only [s.table.give_holds_left hne, hserver, haccepted, Option.toList_some,
        List.singleton_append, List.erase_cons_head]
      rfl
    · intro rest' hops
      obtain rfl := Worker.serving.inj hops
      simp only [Table.give_holds_right, hidle]
      exact ⟨plan.valid, plan.closed⟩
    · intro hquiet
      exact absurd rfl (hquiet plan.ops)
  · exact hs

theorem held_get {s : Server T} (hs : Held s) (t : T) : Held (step s (.get t)) := by
  simp only [step]
  split
  · rename_i hidle
    refine ⟨hs.owned, hs.server, hs.plan_update (fun _ _ => rfl) ?_,
      hs.quiet_update (fun _ _ => rfl) ?_⟩
    · intro rest hserving
      exact Worker.noConfusion hserving
    · intro _
      apply hs.quiet
      intro rest hserving
      rw [hidle] at hserving
      exact Worker.noConfusion hserving
  · exact hs

theorem held_work {s : Server T} (hs : Held s) {t : T}
    (hfresh : ∀ op rest, s.worker t = .serving (op :: rest) → Fresh s.table.opened op) :
    Held (step s (.work t)) := by
  simp only [step]
  split
  · rename_i op rest hserving
    obtain ⟨⟨hvalid, hvalidRest⟩, hclosed⟩ := hs.plan t (op :: rest) hserving
    have hothers (other : T) (hother : other ≠ t) :
        (s.table.op (some t) op).holds (some other) = s.table.holds (some other) :=
      s.table.op_holds_of_ne (fun h => hother (Option.some.inj h)) op
    refine ⟨hs.owned.op (hfresh op rest hserving) hvalid, ?_, hs.plan_update hothers ?_,
      hs.quiet_update hothers ?_⟩
    · simp only [s.table.op_holds_of_ne (Option.some_ne_none t).symm]
      exact hs.server
    · intro rest' hrest
      obtain rfl := Worker.serving.inj hrest
      simp only [Table.op_holds_self]
      exact ⟨hvalidRest, hclosed⟩
    · intro hquiet
      exact absurd rfl (hquiet rest)
  · rename_i hserving
    obtain ⟨-, hclosed⟩ := hs.plan t [] hserving
    refine ⟨hs.owned, hs.server, hs.plan_update (fun _ _ => rfl) ?_,
      hs.quiet_update (fun _ _ => rfl) fun _ => hclosed⟩
    intro rest hrest
    exact Worker.noConfusion hrest
  · exact hs

theorem held_step (s : Server T) (event : Event T) (hs : Dispatched s ∧ Held s)
    (hallowed : Allowed s event) : Dispatched (step s event) ∧ Held (step s event) := by
  refine ⟨dispatched_step s event hs.1, ?_⟩
  cases event with
  | accept clientSocket => exact held_accept hs.2 hallowed
  | put ops => exact held_put hs.2 hs.1 hallowed
  | get t => exact held_get hs.2 t
  | work t => exact held_work hs.2 hallowed

/-- A connection goes to a thread that waits, and is closed without a session only
when no thread waits for one. -/
structure Orderly (s : Server T) (event : Event T) : Prop where
  refused : ∀ client, (step s event).log = s.log ++ [(client, none)] →
    ∀ t, s.worker t ≠ .waiting
  served : ∀ client t, (step s event).log = s.log ++ [(client, some t)] → s.worker t = .waiting

/-- A thread touches its own sockets only. -/
def Apart (s : Server T) (event : Event T) : Prop :=
  ∀ o op, operation s event = some (o, op) → Valid (s.table.holds o) op

theorem step_log (s : Server T) (event : Event T) :
    (step s event).log = s.log ∨
      (∃ client, s.connMbox = [] ∧ (step s event).log = s.log ++ [(client, none)]) ∨
        ∃ client t, t ∈ s.connMbox ∧ (step s event).log = s.log ++ [(client, some t)] := by
  cases event with
  | accept clientSocket =>
      left
      simp only [step]
      split <;> rfl
  | put ops =>
      simp only [step]
      split
      · rename_i client _ hmbox
        exact Or.inr (Or.inl ⟨client, hmbox, rfl⟩)
      · rename_i client t rest _ hmbox
        refine Or.inr (Or.inr ⟨client, t, ?_, rfl⟩)
        rw [hmbox]
        exact List.mem_cons_self
      · exact Or.inl rfl
  | get t =>
      left
      simp only [step]
      split <;> rfl
  | work t =>
      left
      simp only [step]
      split <;> rfl

theorem Dispatched.orderly {s : Server T} (hs : Dispatched s) (event : Event T) :
    Orderly s event := by
  constructor
  · intro client hlog t hwaiting
    rcases step_log s event with h | ⟨_, hmbox, -⟩ | ⟨_, t', -, h⟩
    · rw [h] at hlog
      exact absurd hlog.symm (by simp)
    · have hmem := (hs.waiting t).mpr hwaiting
      rw [hmbox] at hmem
      exact absurd hmem List.not_mem_nil
    · rw [h] at hlog
      simp at hlog
  · intro client t hlog
    rcases step_log s event with h | ⟨_, -, h⟩ | ⟨_, t', hmem, h⟩
    · rw [h] at hlog
      exact absurd hlog.symm (by simp)
    · rw [h] at hlog
      simp at hlog
    · rw [h] at hlog
      simp only [List.append_cancel_left_eq, List.cons.injEq, Prod.mk.injEq, Option.some.injEq,
        and_true] at hlog
      rw [← hlog.2]
      exact (hs.waiting t').mp hmem

/-- In every interleaving of the server's threads each connection is handed to one
waiting thread or closed; and each socket belongs to one thread, until it is closed. -/
theorem connections_dispatched (listener : Nat) (events : List (Event T)) :
    let s := run step (initial listener) events
    (Along step Orderly (initial listener) events ∧
      s.connections = s.log.map Prod.fst ++ s.accepted.toList) ∧
      (Along step Allowed (initial listener) events →
        Along step Apart (initial listener) events ∧ Owned s.table ∧
          ((∀ t rest, s.worker t ≠ .serving rest) → ∀ socket,
            socket ∈ s.table.opened ↔ socket ∈ s.accepted.toList ++ s.listening.toList)) := by
  intro s
  constructor
  · exact ⟨along_of_step_invariant dispatched_step (fun s event hs => hs.orderly event)
      (dispatched_initial listener) events,
      (invariant_run_of_step dispatched_step (dispatched_initial listener) events).logged⟩
  · intro hallowed
    have hinitial : Dispatched (initial listener : Server T) ∧ Held (initial listener : Server T) :=
      ⟨dispatched_initial listener, held_initial listener⟩
    have hs : Held s := (invariant_run held_step hinitial hallowed).2
    refine ⟨along_of_invariant held_step (fun s event hs _ o op => valid_operation hs.2) hinitial
      hallowed, hs.owned, ?_⟩
    intro hquiet socket
    rw [hs.owned.mem_iff, ← hs.server]
    constructor
    · rintro ⟨_ | t, hmem⟩
      · exact hmem
      · rw [hs.quiet t (hquiet t)] at hmem
        exact absurd hmem List.not_mem_nil
    · exact fun hmem => ⟨none, hmem⟩

theorem transfer_valid (control data : Nat) : Along hold Valid [control]
    [.use control, .acquire data, .use data, .release data, .release control] := by
  simp [Valid, hold]

theorem transfer_closed (control data : Nat) : run hold [control]
    [.use control, .acquire data, .use data, .release data, .release control] = [] := by
  simp [hold]

/-- A client that transfers data once. -/
def transferPlan (control data : Nat) : Plan control :=
  ⟨_, transfer_valid control data, transfer_closed control data⟩

/-- The second client comes while the only thread that waited is busy; the third one
gets the second thread and the socket of the second client. -/
theorem three_clients_dispatched :
    let events : List (Event Bool) :=
      [.get true, .accept (some 5), .put (transferPlan 5 6).ops, .accept (some 7),
        .put (transferPlan 7 8).ops, .work true, .get false, .work true, .accept (some 7),
        .put (transferPlan 7 8).ops, .work false, .work true]
    let s := run step (initial 3) events
    Along step Apart (initial 3) events ∧ Owned s.table ∧
      ((∀ t rest, s.worker t ≠ .serving rest) → ∀ socket,
        socket ∈ s.table.opened ↔ socket ∈ s.accepted.toList ++ s.listening.toList) :=
  (connections_dispatched 3 _).2 ⟨trivial, allowed_accept (by decide), allowed_put rfl _,
    allowed_accept (by decide), allowed_put rfl _, allowed_work rfl trivial, trivial,
    allowed_work rfl (by decide), allowed_accept (by decide), allowed_put rfl _,
    allowed_work rfl trivial, allowed_work rfl trivial, trivial⟩

end ZeusLe.FtpDispatch
