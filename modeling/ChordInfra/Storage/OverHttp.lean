/-
# Requests over HTTP

In `Storage.World` keys reach the handlers verbatim.  Over HTTP a key or an id is written into a
URL as it is (`Storage.Routes`), and the handler works on what the URL reaches: `overHttp` answers
a request so, and `appendOverHttp` is an append whose requests arrive so.  Where no route matches a
URL the server answers 404, which a read takes for no value and everything else raises.

For a plain id this is the same as verbatim (`exec_overHttp`, `appendOverHttp_eq`).
-/

import ChordInfra.Storage.Routes

namespace ChordInfra
namespace Storage

open Interact Prog
open Url (Decodes Literal received)

/-! ### The key that a URL reaches -/

/-- The text after a name that it begins with. -/
def after (name text : String) : Option String :=
  if name.toList.isPrefixOf text.toList then
    some (String.ofList (text.toList.drop name.toList.length))
  else none

/-- The key that a text is. -/
def Key.ofText (text : String) : Key :=
  ((after "task:" text).map Key.task <|> (after "result:" text).map Key.result <|>
    (after "worker:" text).map Key.worker).getD (.other text)

theorem after_self (name v : String) : after name (name ++ v) = some v := by
  unfold after
  rw [String.toList_append, if_pos (by simp), List.drop_left, String.ofList_toList]

theorem after_other {name name' : String} (h : ¬name.toList <+: name'.toList)
    (h' : ¬name'.toList <+: name.toList) (v : String) : after name (name' ++ v) = none := by
  unfold after
  refine if_neg fun hpre => ?_
  rw [String.toList_append] at hpre
  rcases List.prefix_or_prefix_of_prefix ( List.isPrefixOf_iff_prefix.1 hpre)
    (List.prefix_append name'.toList v.toList) with hle | hle
  · exact h hle
  · exact h' hle

/-- The key of a record is read back from its text. -/
theorem Key.ofText_key (t : Table) (id : String) : Key.ofText (t.key id).text = t.key id := by
  rw [t.text_key]
  unfold Key.ofText
  cases t with
  | tasks =>
    rw [show Table.tasks.name = "task:" from rfl, after_self]
    rfl
  | results =>
    rw [show Table.results.name = "result:" from rfl, after_self,
      after_other (by decide) (by decide)]
    rfl
  | workers =>
    rw [show Table.workers.name = "worker:" from rfl, after_self,
      after_other (by decide) (by decide), after_other (by decide) (by decide)]
    rfl

section Reached

variable (decode : List UInt8 → List Char)

/-- The key that a URL reaches, where a route matches. -/
def reached (url : String) : Option Key := (addressed decode url).map Key.ofText

/-- The request that the handler gets, where a route matches its URL. -/
def Request.arrives : Request → Option Request
  | .getState => some .getState
  | .get k => (reached decode k.dataUrl).map .get
  | .put k v => (reached decode k.dataUrl).map fun k' => .put k' v
  | .delete k => (reached decode k.dataUrl).map .delete
  | .getReplica k => (reached decode k.replicaUrl).map .getReplica
  | .putReplica k v => (reached decode k.replicaUrl).map fun k' => .putReplica k' v
  | .deleteReplica k => (reached decode k.replicaUrl).map .deleteReplica

namespace World

/-- What a request does to the store of the process that serves it. -/
def serveOverHttp (s : Stores) (a : Address) (r : Request) : Stores :=
  match r.arrives decode with
  | some r' => serve s a r'
  | none => s

/-- It does nothing to the others. -/
theorem serveOverHttp_of_ne {s : Stores} {a a' : Address} (h : a' ≠ a) (r : Request) :
    serveOverHttp decode s a r a' = s a' := by
  unfold serveOverHttp
  cases r.arrives decode with
  | none => rfl
  | some r' => cases r' <;> first | rfl | exact Function.update_of_ne h ..

section EqSelf

variable {decode} {s : Stores} {a : Address} {k : Key}

/-- A request whose handler does nothing. -/
theorem serveOverHttp_eq_self {r : Request}
    (h : ∀ r', r.arrives decode = some r' → serve s a r' = s) : serveOverHttp decode s a r = s := by
  unfold serveOverHttp
  cases hr : r.arrives decode with
  | none => rfl
  | some r' => exact h r' hr

theorem serveOverHttp_get : serveOverHttp decode s a (.get k) = s := by
  refine serveOverHttp_eq_self fun r' hr => ?_
  obtain ⟨k', -, rfl⟩ := Option.map_eq_some_iff.1 hr
  rfl

theorem serveOverHttp_delete (h : ∀ k' ∈ reached decode k.dataUrl, (s a).get k' = none) :
    serveOverHttp decode s a (.delete k) = s := by
  refine serveOverHttp_eq_self fun r' hr => ?_
  obtain ⟨k', hk, rfl⟩ := Option.map_eq_some_iff.1 hr
  exact Stores.delete_eq_self (h k' hk)

theorem serveOverHttp_deleteReplica
    (h : ∀ k' ∈ reached decode k.replicaUrl, (s a).get k' = none) :
    serveOverHttp decode s a (.deleteReplica k) = s := by
  refine serveOverHttp_eq_self fun r' hr => ?_
  obtain ⟨k', hk, rfl⟩ := Option.map_eq_some_iff.1 hr
  exact Stores.delete_eq_self (h k' hk)

end EqSelf

/-- What the transport makes of the answer; it raises at a 404 to what is no read. -/
def answerOverHttp (env : Env) (w : World) (a : Address) : (r : Request) → Option r.Reply
  | .getState => some (answer env w a .getState)
  | .get k => some ((reached decode k.dataUrl).bind fun k' => answer env w a (.get k'))
  | .getReplica k =>
    some ((reached decode k.replicaUrl).bind fun k' => answer env w a (.getReplica k'))
  | .delete k => (reached decode k.dataUrl).map fun k' => answer env w a (.delete k')
  | .put k _ => (reached decode k.dataUrl).map fun _ => ()
  | .putReplica k _ => (reached decode k.replicaUrl).map fun _ => ()
  | .deleteReplica k => (reached decode k.replicaUrl).map fun _ => ()

/-- A request with what becomes of it. -/
def rpcOverHttp (env : Env) (a : Address) (r : Request) (w : World) : Option r.Reply × World :=
  let d := env.deliver w.trace.length a r
  (if d = .delivered then answerOverHttp decode env w a r else none,
    { w with
      stores := if d = .lost then w.stores else serveOverHttp decode w.stores a r
      trace := (.rpc a r, d) :: w.trace })

end World

/-- What an operation does to the world, and its answer, when requests go over HTTP. -/
def overHttp (env : Env) : (o : Op) → World → o.Res × World
  | .rpc a r, w => World.rpcOverHttp decode env a r w
  | o, w => handle env o w

/-- The id that `workers_append` gets from the URL of an append, where its route matches. -/
def appendId (workerId : String) : Option String :=
  Route.workersAppend.captures (received decode (appendUrl workerId).toList)

namespace WorkerAssignment

/-- What the URL of an append runs in the process at `a`. -/
def handleAppendUrl (a : Address) (k : ℕ) (workerId taskId : String) : M Assignment :=
  match appendId decode workerId with
  | some id => handleAppend a k id taskId
  | none => raise .request

/-- `append`, whose requests go over HTTP. -/
def appendOverHttp (s : Service) (workerId taskId : String) : M Assignment :=
  appendBy s workerId taskId fun a => handleAppendUrl decode a s.replicationK workerId taskId

end WorkerAssignment

end Reached

/-! ### What arrives as it is -/

/-- A request arrives as it is sent. -/
def Op.Arrives (decode : List UInt8 → List Char) : Op → Prop
  | .rpc _ r => r.arrives decode = some r
  | _ => True

section Arrives

variable {decode : List UInt8 → List Char}

/-- An operation whose request arrives as it is sent. -/
theorem overHttp_eq (env : Env) {o : Op} (h : o.Arrives decode) :
    overHttp decode env o = handle env o := by
  cases o with
  | rpc a r =>
    funext w
    have hserve : World.serveOverHttp decode w.stores a r = World.serve w.stores a r := by
      have h' : r.arrives decode = some r := h
      unfold World.serveOverHttp
      rw [h']
    have hanswer : World.answerOverHttp decode env w a r = some (World.answer env w a r) := by
      cases r with
      | getState => rfl
      | get k | getReplica k | delete k | deleteReplica k | put k v | putReplica k v =>
        obtain ⟨k', hk, he⟩ := Option.map_eq_some_iff.1 h
        cases he
        simp only [World.answerOverHttp, hk]
        rfl
    show World.rpcOverHttp decode env a r w = World.rpc env a r w
    unfold World.rpcOverHttp World.rpc
    rw [hserve, hanswer]
  | _ => rfl

variable (hdecode : Decodes decode) {t : Table} {id : String}

include hdecode

/-- **What is done about a plain id arrives as it is sent.** -/
theorem Plain.arrives (hplain : Plain t id) (haccepted : ∃ k, t.build id = .ok k) {o : Op}
    (ho : o.About t id) : o.Arrives decode := by
  have hreached : ∀ url ∈ t.urls id, reached decode url = some (t.key id) := fun url hurl => by
    unfold reached
    rw [(agrees_iff hdecode haccepted).2 hplain url hurl, Option.map_some, Key.ofText_key]
  have hcopy : t.copy id = t.key id := by
    rcases hplain.2.2 with rfl | hstrip
    · rfl
    · cases t <;> simp [Table.copy, Table.key, hstrip]
  cases o with
  | rpc a r =>
    have hdata := hreached _ List.mem_cons_self
    have hreplica := hreached _ (List.mem_cons_of_mem _ List.mem_cons_self)
    cases r with
    | getState => rfl
    | get k | delete k | put k v =>
      obtain rfl : k = t.key id := ho
      exact congrArg (Option.map _) hdata
    | getReplica k | deleteReplica k | putReplica k v =>
      obtain rfl : k = t.copy id := ho
      rw [hcopy] at hreplica ⊢
      exact congrArg (Option.map _) hreplica
  | _ => trivial

/-- **What a service does about a plain id is the same over HTTP.** -/
theorem exec_overHttp {α : Type} (env : Env) (hplain : Plain t id)
    (haccepted : ∃ k, t.build id = .ok k) {p : M α} (hp : Only (Op.About t id) p) (w : World) :
    exec (overHttp decode env) p w = run env p w :=
  hp.exec_congr (fun _ ho => overHttp_eq env (hplain.arrives hdecode haccepted ho)) w

/-- The id in the URL of an append is what the server makes of it, where that is a segment. -/
theorem appendId_eq (workerId : String) : appendId decode workerId =
    if Converter.segment.accepts (received decode workerId.toList) then
      some (String.ofList (received decode workerId.toList))
    else none := by
  have hpath : received decode (appendUrl workerId).toList =
      Route.workersAppend.base.toList ++ received decode workerId.toList := by
    change received decode (Route.workersAppend.base ++ workerId).toList = _
    rw [String.toList_append]
    exact Url.received_append hdecode Route.workersAppend.base_literal _
  unfold appendId
  rw [hpath, Route.captures_self]
  rfl

/-- **When an append arrives under its own id, or nowhere**: when the id has nothing in it that
means something in a URL, or when no route matches. -/
theorem appendId_unchanged_iff (workerId : String) :
    (∀ id ∈ appendId decode workerId, id = workerId) ↔
      Literal workerId.toList ∨ appendId decode workerId = none := by
  rw [← Url.received_eq_self_iff hdecode, appendId_eq hdecode]
  split_ifs with haccepts
  · rw [or_false]
    refine ⟨fun h => ?_, fun h id hid => ?_⟩
    · exact String.toList_ofList.symm.trans (congrArg String.toList (h _ rfl))
    · rw [← Option.some.inj hid, h, String.ofList_toList]
  · exact iff_of_true (fun id hid => (by cases hid)) (.inr rfl)

/-- A plain id arrives. -/
theorem Plain.appendId (hplain : Plain .workers id) (hid : id ≠ "") :
    Storage.appendId decode id = some id := by
  obtain ⟨hliteral, hslash, hstrip⟩ := hplain
  rw [hstrip.resolve_left (by simp)] at hliteral hslash
  rw [appendId_eq hdecode, (Url.received_eq_self_iff hdecode).2 hliteral, String.ofList_toList,
    if_pos]
  simp [Converter.accepts, hslash, hid]

/-- An append to the list of a plain id is the same over HTTP. -/
theorem appendOverHttp_eq (hplain : Plain .workers id) (hid : id ≠ "") (s : Service)
    (taskId : String) :
    WorkerAssignment.appendOverHttp decode s id taskId = WorkerAssignment.append s id taskId := by
  unfold WorkerAssignment.appendOverHttp WorkerAssignment.handleAppendUrl WorkerAssignment.append
  rw [hplain.appendId hdecode hid]

end Arrives

end Storage
end ChordInfra
