/-
# Keys and URLs

How `HttpTransport` (`chord/transport.py`) writes the key or the id of a record into a URL,
and which key the handler works on that the URL reaches at the other node (`chord/server.py`).
The routes for the data and for the copies are there for `GET`, `POST` and `DELETE` alike, so
a request is written here by its URL, from the path on.  A URL is sent as it is written: its dot
segments are kept, which an HTTP client may drop, and so is a `%` that starts no escape.

The key of a record is made of its id without the white space around it.  The copies of results
and of assignments are addressed by the id as it was given, and no part of a URL is quoted:
so all that is done about some ids is done under one key just when none of them has a character
that means something in a URL, or white space around it (`coherent_iff`).
-/

import ChordInfra.Storage.Addressing
import ChordInfra.Url.Path

namespace ChordInfra
namespace Storage

open Interact Prog
open ChordInfra.Ring (NodeRef)
open Url (Decodes Literal received)

/-! ### Keys and URLs -/

/-- A key as a text. -/
def Key.text : Key → String
  | .task id => "task:" ++ id
  | .result id => "result:" ++ id
  | .worker id => "worker:" ++ id
  | .other name => name

/-- The URL of `put`, `get` and `delete`. -/
def Key.dataUrl (k : Key) : String := "/data/" ++ k.text

/-- The URL of the requests about a copy: `put_task_replica`, `put_result_replica` and
`put_worker_replica` with their siblings. -/
def Key.replicaUrl : Key → String
  | .result taskId => "/internal/results/replica/" ++ taskId
  | .worker workerId => "/internal/workers/replica/" ++ workerId
  | taskKey => "/internal/tasks/replica/" ++ taskKey.text

/-- The URL of `append_worker_assignment`. -/
def appendUrl (workerId : String) : String := "/internal/workers/append/" ++ workerId

/-- The URL of a request. -/
def Request.url : Request → String
  | .getState => "/chord/state"
  | .get k | .put k _ | .delete k => k.dataUrl
  | .getReplica k | .putReplica k _ | .deleteReplica k => k.replicaUrl

/-! ### Routes -/

/-- What the variable of a route matches: one segment, or slashes as well. -/
inductive Converter
  | segment | path

/-- Whether the variable matches a text. -/
def Converter.accepts : Converter → List Char → Bool
  | segment, v => !v.isEmpty && !v.contains '/'
  | path, v => !v.isEmpty

/-- The routes for keys and ids. -/
inductive Route
  /-- `/data/<key>`. -/
  | data
  /-- `/internal/tasks/replica/<path:task_key>`. -/
  | taskReplica
  /-- `/internal/results/replica/<task_id>`. -/
  | resultReplica
  /-- `/internal/workers/replica/<worker_id>`. -/
  | workerReplica
  /-- `/internal/workers/append/<worker_id>`. -/
  | workersAppend

namespace Route

/-- The route up to its variable. -/
def base : Route → String
  | data => "/data/"
  | taskReplica => "/internal/tasks/replica/"
  | resultReplica => "/internal/results/replica/"
  | workerReplica => "/internal/workers/replica/"
  | workersAppend => "/internal/workers/append/"

/-- The converter of its variable. -/
def converter : Route → Converter
  | taskReplica => .path
  | _ => .segment

/-- The key that the handler works on; `workers_append` has `append_local` make it. -/
def key : Route → String → String
  | data, v | taskReplica, v => v
  | resultReplica, v => "result:" ++ v
  | workerReplica, v => "worker:" ++ v
  | workersAppend, v => "worker:" ++ strip v

/-- What the variable is for a path. -/
def captures (r : Route) (path : List Char) : Option String :=
  if r.base.toList.isPrefixOf path ∧ r.converter.accepts (path.drop r.base.toList.length) then
    some (String.ofList (path.drop r.base.toList.length))
  else none

end Route

/-- All of them. -/
def routes : List Route :=
  [.data, .taskReplica, .resultReplica, .workerReplica, .workersAppend]

/-- The key that the handler of a request works on, where a route matches its URL. -/
def addressed (decode : List UInt8 → List Char) (url : String) : Option String :=
  routes.findSome? fun r => (r.captures (received decode url.toList)).map r.key

/-! ### What is sent about an id -/

namespace Table

/-- The URLs of the requests about an id. -/
def urls (t : Table) (id : String) : List String :=
  (t.key id).dataUrl :: (t.copy id).replicaUrl :: if t = workers then [appendUrl id] else []

end Table

/-- **What the services send about an id goes to these URLs.** -/
theorem Op.About.url {t : Table} {id : String} {a : Address} {r : Request}
    (h : Op.About t id (.rpc a r)) : r = .getState ∨ r.url ∈ t.urls id := by
  cases r with
  | getState => exact .inl rfl
  | get k | put k v | delete k => exact .inr (h ▸ List.mem_cons_self)
  | getReplica k | putReplica k v | deleteReplica k =>
    exact .inr (h ▸ List.mem_cons_of_mem _ List.mem_cons_self)

theorem Op.About.appendUrl {t : Table} {id : String} {a : Address} {workerId taskId : String}
    (h : Op.About t id (.deliver a (.append workerId taskId))) :
    Storage.appendUrl workerId ∈ t.urls id := by
  obtain ⟨rfl, rfl⟩ := h
  exact List.mem_cons_of_mem _ (List.mem_cons_of_mem _ List.mem_cons_self)

/-! ### What a URL reaches -/

namespace Route

/-- No route begins like another. -/
theorem base_not_isPrefix {r r' : Route} (h : r ≠ r') : ¬r.base.toList <+: r'.base.toList := by
  cases r <;> cases r' <;> first | exact absurd rfl h | decide

theorem base_literal (r : Route) : ∀ c ∈ r.base.toList, Url.endsPath c = false ∧ c ≠ '%' := by
  refine List.forall_iff_forall_mem.1 ?_
  cases r <;> decide

theorem captures_self (r : Route) (v : List Char) :
    r.captures (r.base.toList ++ v) =
      if r.converter.accepts v then some (String.ofList v) else none := by
  unfold captures
  rw [List.drop_left]
  by_cases hv : r.converter.accepts v = true
  · rw [if_pos hv, if_pos ⟨List.isPrefixOf_iff_prefix.2 (List.prefix_append _ _), hv⟩]
  · rw [if_neg hv, if_neg fun h => hv h.2]

theorem captures_other {r r' : Route} (h : r' ≠ r) (v : List Char) :
    r'.captures (r.base.toList ++ v) = none := by
  unfold captures
  refine if_neg fun hpre => ?_
  rcases List.prefix_or_prefix_of_prefix ( List.isPrefixOf_iff_prefix.1 hpre.1)
    (List.prefix_append r.base.toList v) with hle | hle
  · exact base_not_isPrefix h hle
  · exact base_not_isPrefix h.symm hle

end Route

/-- Where only one element of a list has a value, that is the first one. -/
theorem findSome?_eq {α β : Type} {f : α → Option β} {a : α} {l : List α} (ha : a ∈ l)
    (h : ∀ b, b ≠ a → f b = none) : l.findSome? f = f a := by
  induction l with
  | nil => cases ha
  | cons b l ih =>
    rw [List.findSome?_cons]
    by_cases hb : b = a
    · subst hb
      cases hf : f b with
      | some x => rfl
      | none =>
        have hrest : ∀ c, f c = none := fun c => by
          by_cases hc : c = b
          · rw [hc, hf]
          · exact h c hc
        exact List.findSome?_eq_none_iff.2 fun c _ => hrest c
    · rw [h b hb]
      exact ih ((List.mem_cons.1 ha).resolve_left (Ne.symm hb))

section Addressed

variable {decode : List UInt8 → List Char} (hdecode : Decodes decode)

include hdecode

/-- **The key that a URL reaches**: the route is the one that the URL was written for, and its
variable what the server made of the rest. -/
theorem addressed_append (r : Route) (v : String) :
    addressed decode (r.base ++ v) =
      if r.converter.accepts (received decode v.toList) then
        some (r.key (String.ofList (received decode v.toList)))
      else none := by
  have hpath : received decode (r.base ++ v).toList = r.base.toList ++ received decode v.toList := by
    rw [String.toList_append, Url.received_append hdecode r.base_literal]
  have hroutes : addressed decode (r.base ++ v) =
      (r.captures (r.base.toList ++ received decode v.toList)).map r.key := by
    unfold addressed
    rw [hpath]
    refine findSome?_eq (by cases r <;> simp [routes]) fun r' h => ?_
    rw [Route.captures_other h]
    rfl
  rw [hroutes, Route.captures_self]
  split_ifs <;> rfl

/-- A key in a URL is the key that it reaches just when it is received as it is and matches. -/
theorem addressed_key_iff {r : Route} (hkey : ∀ v, r.key v = v) (v : String) :
    addressed decode (r.base ++ v) = some v ↔
      Literal v.toList ∧ r.converter.accepts v.toList = true := by
  rw [addressed_append hdecode, ← Url.received_eq_self_iff hdecode]
  constructor
  · intro h
    split_ifs at h with haccepts
    · rw [hkey, Option.some.injEq] at h
      have hlist : received decode v.toList = v.toList := by
        rw [← String.toList_ofList (l := received decode v.toList), h]
      rw [hlist] at haccepts
      exact ⟨hlist, haccepts⟩
  · rintro ⟨hlist, haccepts⟩
    rw [hlist, if_pos haccepts, hkey, String.ofList_toList]

end Addressed

/-! ### Ids -/

/-- The id, without the white space around it, has nothing in it that means something in a URL; and
where its copies are addressed by the id as it is, there is no white space around it. -/
def Plain (t : Table) (id : String) : Prop :=
  Literal (strip id).toList ∧ '/' ∉ (strip id).toList ∧ (t = .tasks ∨ strip id = id)

/-- The text before the id in a key. -/
def Table.name : Table → String
  | tasks => "task:"
  | results => "result:"
  | workers => "worker:"

theorem Table.text_key (t : Table) (id : String) : (t.key id).text = t.name ++ strip id := by
  cases t <;> rfl

theorem Table.name_literal (t : Table) :
    ∀ c ∈ t.name.toList, (Url.endsPath c = false ∧ c ≠ '%') ∧ c ≠ '/' := by
  refine List.forall_iff_forall_mem.1 ?_
  cases t <;> decide

/-- The key of a record in a URL. -/
theorem Table.literal_key (t : Table) (id : String) :
    Literal (t.key id).text.toList ↔ Literal (strip id).toList := by
  rw [text_key, String.toList_append]
  exact Url.literal_append fun c hc => (t.name_literal c hc).1

theorem Table.accepts_key (t : Table) (id : String) :
    Converter.segment.accepts (t.key id).text.toList = true ↔ '/' ∉ (strip id).toList := by
  have hslash : '/' ∉ t.name.toList := fun h => (t.name_literal _ h).2 rfl
  have hne : t.name.toList ≠ [] := by cases t <;> decide
  rw [text_key, String.toList_append]
  simp [Converter.accepts, hslash, hne]

/-- White space means nothing in a URL. -/
theorem not_special_of_isSpace {c : Char} (h : isSpace c = true) :
    Url.endsPath c = false ∧ c ≠ '%' ∧ Url.hexValue c = none := by
  have hcode : c.toNat ≤ 0x20 ∨ 0x7f < c.toNat := by
    simp only [isSpace, List.mem_cons, List.not_mem_nil, or_false, Bool.or_eq_true,
      decide_eq_true_eq, Bool.and_eq_true] at h
    omega
  have hne : ∀ d : Char, 0x20 < d.toNat ∧ d.toNat ≤ 0x7f → c ≠ d := by
    rintro d hd rfl
    omega
  refine ⟨?_, hne '%' (by decide), ?_⟩
  · simp [Url.endsPath, hne '?' (by decide), hne '#' (by decide)]
  · unfold Url.hexValue
    rw [if_neg (by omega), if_neg (by omega), if_neg (by omega)]

/-- An id that has nothing special but white space around it has nothing special. -/
theorem literal_of_strip {id : String} (h : Literal (strip id).toList) : Literal id.toList := by
  rw [strip, String.toList_ofList, trim] at h
  have hsplit : id.toList = id.toList.takeWhile isSpace ++
      ((id.toList.dropWhile isSpace).rdropWhile isSpace ++
        (id.toList.dropWhile isSpace).rtakeWhile isSpace) := by
    rw [List.rdropWhile_append_rtakeWhile, List.takeWhile_append_dropWhile]
  rw [hsplit, Url.literal_append fun c hc => ?_]
  · exact h.append fun c hc => not_special_of_isSpace ( List.mem_rtakeWhile_imp hc)
  · exact ⟨(not_special_of_isSpace ( List.mem_takeWhile_imp hc)).1,
      (not_special_of_isSpace ( List.mem_takeWhile_imp hc)).2.1⟩

/-! ### Which ids are addressed by one key -/

section Coherent

variable {decode : List UInt8 → List Char} (hdecode : Decodes decode) {t : Table} {id : String}

include hdecode

theorem dataUrl_iff : addressed decode (t.key id).dataUrl = some (t.key id).text ↔
    Literal (strip id).toList ∧ '/' ∉ (strip id).toList := by
  have h := addressed_key_iff hdecode (r := .data) (fun _ => rfl) (t.key id).text
  rwa [t.literal_key, show Route.data.converter = .segment from rfl, t.accepts_key] at h

/-- A route that makes a key of an id. -/
theorem addressed_of_literal {r : Route} (hr : r.converter = .segment) (hid : id ≠ "")
    (hliteral : Literal id.toList) (hslash : '/' ∉ id.toList) :
    addressed decode (r.base ++ id) = some (r.key id) := by
  have haccepts : r.converter.accepts id.toList = true := by
    rw [hr]
    simp [Converter.accepts, hslash, hid]
  rw [addressed_append hdecode, (Url.received_eq_self_iff hdecode).2 hliteral, if_pos haccepts,
    String.ofList_toList]

/-- Where the copies of a record are addressed by its id, there is no white space around it. -/
theorem strip_eq_of_copy {r : Route} (hr : ∀ v, r.key v = t.name ++ v)
    (hliteral : Literal (strip id).toList)
    (h : addressed decode (r.base ++ id) = some (t.key id).text) : strip id = id := by
  rw [addressed_append hdecode, (Url.received_eq_self_iff hdecode).2 (literal_of_strip hliteral)] at h
  split_ifs at h
  rw [Option.some.injEq, hr, String.ofList_toList, t.text_key] at h
  exact ((String.append_right_inj _).1 h).symm

/-- **All that is sent about an id is sent to its key** just when the id is plain. -/
theorem agrees_iff (haccepted : ∃ k, t.build id = .ok k) :
    (∀ url ∈ t.urls id, addressed decode url = some (t.key id).text) ↔ Plain t id := by
  obtain ⟨k, hk⟩ := haccepted
  obtain ⟨hname, -⟩ := Table.build_eq_ok_iff.1 hk
  have hdata : addressed decode (t.key id).dataUrl = some (t.key id).text ↔
      Literal (strip id).toList ∧ '/' ∉ (strip id).toList := dataUrl_iff hdecode
  have hid : id ≠ "" := by
    rintro rfl
    exact hname (by cases t <;> decide)
  constructor
  · intro h
    obtain ⟨hliteral, hslash⟩ := hdata.1 (h _ List.mem_cons_self)
    have hcopy := h _ (List.mem_cons_of_mem _ List.mem_cons_self)
    refine ⟨hliteral, hslash, ?_⟩
    cases t with
    | tasks => exact .inl rfl
    | results =>
      exact .inr (strip_eq_of_copy hdecode (r := .resultReplica) (fun _ => rfl) hliteral hcopy)
    | workers =>
      exact .inr (strip_eq_of_copy hdecode (r := .workerReplica) (fun _ => rfl) hliteral hcopy)
  · rintro ⟨hliteral, hslash, hstrip⟩ url hurl
    have hdataUrl := hdata.2 ⟨hliteral, hslash⟩
    cases t with
    | tasks =>
      have hcopy : addressed decode (Route.taskReplica.base ++ (Key.task (strip id)).text) =
          some (Key.task (strip id)).text := by
        refine (addressed_key_iff hdecode (r := .taskReplica) (fun _ => rfl) _).2 ⟨?_, ?_⟩
        · exact (Table.tasks.literal_key id).2 hliteral
        · simp [Route.converter, Converter.accepts, Key.text]
      simp only [Table.urls, reduceCtorEq, if_false, List.mem_cons, List.not_mem_nil, or_false] at hurl
      rcases hurl with rfl | rfl
      · exact hdataUrl
      · exact hcopy
    | results =>
      have hself : strip id = id := hstrip.resolve_left (by simp)
      rw [hself] at hliteral hslash
      simp only [Table.urls, reduceCtorEq, if_false, List.mem_cons, List.not_mem_nil, or_false] at hurl
      rcases hurl with rfl | rfl
      · exact hdataUrl
      · rw [Table.text_key, hself]
        exact addressed_of_literal hdecode (r := .resultReplica) rfl hid hliteral hslash
    | workers =>
      have hself : strip id = id := hstrip.resolve_left (by simp)
      rw [hself] at hliteral hslash
      simp only [Table.urls, if_true, List.mem_cons, List.not_mem_nil, or_false] at hurl
      rcases hurl with rfl | rfl | rfl
      · exact hdataUrl
      · rw [Table.text_key, hself]
        exact addressed_of_literal hdecode (r := .workerReplica) rfl hid hliteral hslash
      · rw [Table.text_key]
        exact addressed_of_literal hdecode (r := .workersAppend) rfl hid hliteral hslash

end Coherent

/-- All that is sent about the ids in use is sent to their keys, and what is sent about different
keys to different ones. -/
structure Coherent (decode : List UInt8 → List Char) (ids : Set (Table × String)) : Prop where
  agrees : ∀ x ∈ ids, ∀ url ∈ x.1.urls x.2, addressed decode url = some (x.1.key x.2).text
  separate : ∀ x ∈ ids, ∀ y ∈ ids, (x.1.key x.2).text ≠ (y.1.key y.2).text →
    ∀ u ∈ x.1.urls x.2, ∀ v ∈ y.1.urls y.2, ∀ k, addressed decode u = some k →
      addressed decode v ≠ some k

/-- **When ids have one key each, on every node**: when each id in use, without the white space
around it, has no `?`, `#` or `/` and no `%` with two hexadecimal digits after it, and when
there is no white space around the ids of results and workers. -/
theorem coherent_iff {decode : List UInt8 → List Char} (hdecode : Decodes decode)
    {ids : Set (Table × String)} (hids : ∀ x ∈ ids, ∃ k, x.1.build x.2 = .ok k) :
    Coherent decode ids ↔ ∀ x ∈ ids, Plain x.1 x.2 := by
  constructor
  · exact fun h x hx => (agrees_iff hdecode (hids x hx)).1 (h.agrees x hx)
  · intro h
    have hagrees : ∀ x ∈ ids, ∀ url ∈ x.1.urls x.2,
        addressed decode url = some (x.1.key x.2).text := fun x hx =>
      (agrees_iff hdecode (hids x hx)).2 (h x hx)
    refine ⟨hagrees, fun x hx y hy hne u hu v hv k hk hv' => hne ?_⟩
    rw [hagrees x hx u hu, Option.some.injEq] at hk
    rw [hagrees y hy v hv, Option.some.injEq] at hv'
    exact hk.trans hv'.symm

/-- Each byte as a character. -/
def latin1 (bytes : List UInt8) : List Char := bytes.map fun b => Char.ofNat b.toNat

theorem decodes_latin1 : Decodes latin1 := fun _ => (List.length_map _).le

/-- A letter is a plain id. -/
theorem plain_letter : Plain .workers "w" := by
  have hstrip : strip "w" = "w" := by decide
  unfold Plain
  rw [hstrip]
  exact ⟨⟨List.forall_mem_singleton.2 (by decide), by decide⟩, by decide, .inr rfl⟩

/-- The hypotheses of `coherent_iff` are satisfiable: a task with white space around its id and a
worker. -/
theorem coherent_iff_twoIds : Coherent latin1 {(.tasks, " a b "), (.workers, "w")} ↔
    ∀ x ∈ ({(.tasks, " a b "), (.workers, "w")} : Set (Table × String)), Plain x.1 x.2 := by
  refine coherent_iff decodes_latin1 ?_
  rintro x (rfl | rfl)
  · exact ⟨.task "a b", by decide⟩
  · exact ⟨.worker "w", by decide⟩

/-- **Two results at one key**: the ids differ after a `?`. -/
theorem not_coherent_questionMark : ¬Coherent latin1 {(.results, "a?b"), (.results, "a?c")} := by
  intro h
  have hreaches : ∀ id ∈ ["a?b", "a?c"],
      addressed latin1 (Table.results.key id).dataUrl = some "result:a" := by decide
  exact h.separate _ (.inl rfl) _ (.inr rfl) (by decide) _ List.mem_cons_self _ List.mem_cons_self
    "result:a" (hreaches "a?b" (by simp)) (hreaches "a?c" (by simp))

end Storage
end ChordInfra
