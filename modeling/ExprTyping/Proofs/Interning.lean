import ExprTyping.Interner.Handles
import Mathlib.Data.Finset.Card
import Mathlib.Data.List.Induction
import Mathlib.Data.List.Nodup

/-!
# The numbers of interned strings

An interner holds its strings twice, by number and by string.  After any sequence of
requests, through whatever handles, both views are determined by the strings that have been
interned: the empty string has number zero, and every other one has the next free number
when it occurs for the first time.  Each view is the inverse of the other.

Numbers are therefore never given away twice and never change, and every answer can be
computed from the requests before it.
-/

namespace ExprTyping
namespace Interner

/-! ## Numbering by first occurrence -/

/-- The stored strings, by number, after interning a list of strings. -/
def numbering (strings : List String) : List String :=
  ("" :: strings).eraseDups

theorem mem_numbering {strings : List String} {s : String} :
    s ∈ numbering strings ↔ s = "" ∨ s ∈ strings := by
  rw [numbering, List.mem_eraseDups, List.mem_cons]

theorem numbering_append (strings more : List String) :
    numbering (strings ++ more) =
      numbering strings ++ (more.removeAll ("" :: strings)).eraseDups := by
  rw [numbering, ← List.cons_append, List.eraseDups_append]
  rfl

theorem numbering_append_of_mem {strings : List String} {s : String}
    (h : s ∈ numbering strings) :
    numbering (strings ++ [s]) = numbering strings := by
  have hmem : ("" :: strings).elem s = true :=
    List.elem_eq_true_of_mem (List.mem_cons.2 (mem_numbering.1 h))
  rw [numbering_append, List.removeAll, List.filter_cons_of_neg (by rw [hmem]; decide)]
  exact List.append_nil _

theorem numbering_append_of_not_mem {strings : List String} {s : String}
    (h : s ∉ numbering strings) :
    numbering (strings ++ [s]) = numbering strings ++ [s] := by
  have hmem : s ∉ "" :: strings := fun hs => h (mem_numbering.2 (List.mem_cons.1 hs))
  rw [numbering_append, List.removeAll, List.filter_cons_of_pos (by simpa using hmem)]
  simp [List.eraseDups_cons]

theorem numbering_isPrefix_append (strings more : List String) :
    numbering strings <+: numbering (strings ++ more) := by
  rw [numbering_append]
  exact List.prefix_append _ _

theorem nodup_numbering (strings : List String) : (numbering strings).Nodup := by
  induction strings using List.reverseRecOn with
  | nil => simp [numbering, List.eraseDups_cons]
  | append_singleton strings s ih =>
      by_cases hs : s ∈ numbering strings
      · rw [numbering_append_of_mem hs]
        exact ih
      · rw [numbering_append_of_not_mem hs, ← List.concat_eq_append]
        exact ih.concat hs

theorem getElem?_numbering_zero (strings : List String) : (numbering strings)[0]? = some "" := by
  rw [numbering, List.eraseDups_cons]
  rfl

/-- There is a number for the empty string and for every other distinct one. -/
theorem length_numbering (strings : List String) :
    (numbering strings).length = 1 + (strings.filter (· ≠ "")).toFinset.card := by
  have hset : (numbering strings).toFinset = insert "" (strings.filter (· ≠ "")).toFinset := by
    ext s
    simp only [List.mem_toFinset, mem_numbering, Finset.mem_insert, List.mem_filter]
    by_cases hs : s = ""
    · simp [hs]
    · simp [hs]
  have hempty : "" ∉ (strings.filter (· ≠ "")).toFinset := by
    simp
  rw [← List.toFinset_card_of_nodup (nodup_numbering strings), hset,
    Finset.card_insert_of_notMem hempty, Nat.add_comm]

/-- The number of a string does not depend on what is interned after it. -/
theorem idxOf_numbering_append {strings : List String} {s : String}
    (h : s ∈ numbering strings) (more : List String) :
    (numbering (strings ++ more)).idxOf s = (numbering strings).idxOf s := by
  rw [numbering_append, List.idxOf_append_of_mem h]

theorem getElem?_idxOf_numbering {strings : List String} {s : String}
    (h : s ∈ numbering strings) :
    (numbering strings)[(numbering strings).idxOf s]? = some s := by
  rw [List.getElem?_eq_some_iff]
  exact ⟨List.idxOf_lt_length_of_mem h, List.getElem_idxOf _⟩

/-! ## One table -/

/-- The table holds the numbering of the strings, and its index is the inverse of it. -/
structure Numbers (table : Interner) (strings : List String) : Prop where
  texts_eq : table.texts.toList = numbering strings
  index_iff : ∀ (s : String) (k : Nat), table.index[s]? = some k ↔ table.texts[k]? = some s

variable {table : Interner} {strings : List String}

theorem numbers_empty : empty.Numbers [] where
  texts_eq := by simp [empty, numbering, List.eraseDups_cons]
  index_iff s k := by
    have hindex : empty.index[s]? = if "" = s then some 0 else none := by
      simp [empty, Std.HashMap.getElem?_insert]
    rw [hindex]
    by_cases hs : "" = s
    · subst hs
      rcases k with _ | k
      · simp [empty]
      · simp [empty]
    · rcases k with _ | k
      · simp [empty, hs]
      · simp [empty, hs]

namespace Numbers

theorem getElem?_texts (h : table.Numbers strings) (k : Nat) :
    table.texts[k]? = (numbering strings)[k]? := by
  rw [← h.texts_eq, Array.getElem?_toList]

theorem size_eq (h : table.Numbers strings) : table.size = (numbering strings).length := by
  rw [size, ← Array.length_toList, h.texts_eq]

theorem text_eq (h : table.Numbers strings) (name : Name) :
    table.text name = (numbering strings)[name.id]?.getD "" := by
  rw [text, h.getElem?_texts]

theorem probe_eq_some_iff (h : table.Numbers strings) {s : String} {name : Name} :
    table.probe s = some name ↔ (numbering strings)[name.id]? = some s := by
  rw [← h.getElem?_texts, ← h.index_iff, probe, Option.map_eq_some_iff]
  constructor
  · rintro ⟨k, hk, rfl⟩
    exact hk
  · intro hk
    exact ⟨name.id, hk, rfl⟩

theorem probe_of_mem (h : table.Numbers strings) {s : String} (hs : s ∈ numbering strings) :
    table.probe s = some ⟨(numbering strings).idxOf s⟩ :=
  h.probe_eq_some_iff.2 (getElem?_idxOf_numbering hs)

theorem probe_of_not_mem (h : table.Numbers strings) {s : String}
    (hs : s ∉ numbering strings) : table.probe s = none := by
  rw [Option.eq_none_iff_forall_ne_some]
  intro name hname
  exact hs (List.mem_of_getElem? (h.probe_eq_some_iff.1 hname))

/-- A stored string is found again, and nothing changes. -/
theorem intern_of_mem (h : table.Numbers strings) {s : String} (hs : s ∈ numbering strings) :
    table.intern s = .ok (⟨(numbering strings).idxOf s⟩, table) :=
  intern_of_probe_eq_some (h.probe_of_mem hs)

theorem push (h : table.Numbers strings) {s : String} (hs : s ∉ numbering strings) :
    (table.push s).Numbers (strings ++ [s]) := by
  have htexts : (table.push s).texts.toList = numbering strings ++ [s] := by
    rw [Interner.push, Array.toList_push, h.texts_eq]
  refine ⟨by rw [htexts, numbering_append_of_not_mem hs], ?_⟩
  intro t k
  have hindex : (table.push s).index[t]? =
      if s = t then some table.texts.size else table.index[t]? := by
    simp [Interner.push, Std.HashMap.getElem?_insert]
  have hget : (table.push s).texts[k]? =
      if k = table.texts.size then some s else table.texts[k]? :=
    Array.getElem?_push
  rw [hindex, hget]
  by_cases hst : s = t
  · subst hst
    rw [if_pos rfl]
    split
    · next hk => simp [hk]
    · next hk =>
        -- The string is new, so no older number leads to it.
        constructor
        · intro heq
          exact absurd (Option.some.inj heq).symm hk
        · intro hold
          rw [h.getElem?_texts] at hold
          exact absurd (List.mem_of_getElem? hold) hs
  · rw [if_neg hst, h.index_iff]
    split
    · next hk =>
        subst hk
        simp [hst]
    · rfl

/-- As long as there are numbers left, a string is interned under its number in the
numbering that includes it. -/
theorem intern (h : table.Numbers strings) (s : String)
    (hroom : (numbering (strings ++ [s])).length ≤ capacity) :
    ∃ after : Interner, after.Numbers (strings ++ [s]) ∧
      table.intern s = .ok (⟨(numbering (strings ++ [s])).idxOf s⟩, after) := by
  by_cases hs : s ∈ numbering strings
  · have hsame := numbering_append_of_mem hs
    refine ⟨table, ⟨by rw [hsame, h.texts_eq], h.index_iff⟩, ?_⟩
    rw [hsame, h.intern_of_mem hs]
  · have hnew := numbering_append_of_not_mem hs
    rw [hnew, List.length_append, List.length_singleton, ← h.size_eq] at hroom
    refine ⟨table.push s, h.push hs, ?_⟩
    rw [intern_of_probe_eq_none (h.probe_of_not_mem hs) hroom, hnew,
      List.idxOf_append_of_notMem hs, List.idxOf_cons_self, h.size_eq]
    rfl

/-- Distinct names in use have distinct texts. -/
theorem text_inj (h : table.Numbers strings) {a b : Name} (ha : a.id < table.size)
    (hb : b.id < table.size) (htext : table.text a = table.text b) : a = b := by
  rw [h.size_eq] at ha hb
  rw [h.text_eq, h.text_eq, List.getElem?_eq_getElem ha, List.getElem?_eq_getElem hb] at htext
  exact Name.ext_id ((nodup_numbering strings).getElem_inj_iff.1 htext)

end Numbers

/-- The tables that interning can lead to. -/
inductive Reachable : Interner → Prop where
  | empty : Reachable empty
  | intern {table after : Interner} {s : String} {name : Name}
      (htable : Reachable table) (hintern : table.intern s = .ok (name, after)) : Reachable after

namespace Reachable

/-- A new string can be added to a table that is not full. -/
theorem push (h : table.Reachable) {s : String} (hnew : table.probe s = none)
    (hroom : table.size < capacity) : (table.push s).Reachable :=
  h.intern (intern_of_probe_eq_none hnew hroom)

theorem exists_numbers (h : table.Reachable) : ∃ strings, table.Numbers strings := by
  induction h with
  | empty => exact ⟨[], numbers_empty⟩
  | @intern table after s name _ hintern ih =>
      obtain ⟨strings, hnumbers⟩ := ih
      by_cases hs : s ∈ numbering strings
      · rw [hnumbers.intern_of_mem hs] at hintern
        cases hintern
        exact ⟨strings, hnumbers⟩
      · rw [intern_eq_commit, commit, hnumbers.probe_of_not_mem hs] at hintern
        dsimp only at hintern
        split at hintern
        · cases hintern
          exact ⟨strings ++ [s], hnumbers.push hs⟩
        · cases hintern

theorem text_inj (h : table.Reachable) {a b : Name} (ha : a.id < table.size)
    (hb : b.id < table.size) (htext : table.text a = table.text b) : a = b := by
  obtain ⟨strings, hnumbers⟩ := h.exists_numbers
  exact hnumbers.text_inj ha hb htext

end Reachable

/-! ## Requests through handles -/

/-- What can be asked of an interner. -/
inductive Call where
  | intern (s : String)
  | text (name : Name)
  | size
  | share
deriving DecidableEq, Repr

/-- A call through a handle. -/
structure Request where
  handle : Nat
  call : Call
deriving DecidableEq, Repr

inductive Answer where
  | name (name : Name)
  | text (s : String)
  | count (n : Nat)
  | handle (number : Nat)
deriving DecidableEq, Repr

/-- Why a request has no answer. -/
inductive Refusal where
  | unknownHandle
  | full (error : InternError)
deriving DecidableEq, Repr

namespace Pool

/-- Answers a call through a handle. -/
def ask (pool : Pool) (handle : Nat) : Call → Except Refusal (Answer × Pool)
  | .intern s =>
    match pool.intern? handle s with
    | some (.ok (name, changed)) => .ok (.name name, changed)
    | some (.error e) => .error (.full e)
    | none => .error .unknownHandle
  | .text name =>
    match pool.table? handle with
    | some table => .ok (.text (table.text name), pool)
    | none => .error .unknownHandle
  | .size =>
    match pool.table? handle with
    | some table => .ok (.count table.size, pool)
    | none => .error .unknownHandle
  | .share =>
    match pool.share handle with
    | some (number, changed) => .ok (.handle number, changed)
    | none => .error .unknownHandle

/-- Answers requests one after the other, up to the first that has no answer. -/
def askAll (pool : Pool) : List Request → Except Refusal (List Answer × Pool)
  | [] => .ok ([], pool)
  | request :: requests => do
    let (answer, next) ← pool.ask request.handle request.call
    let (answers, last) ← next.askAll requests
    return (answer :: answers, last)

end Pool

/-- The string that a request interns. -/
def Request.interned? (request : Request) : Option String :=
  match request.call with
  | .intern s => some s
  | _ => none

/-- The strings that requests intern, in their order. -/
def interned (requests : List Request) : List String :=
  requests.filterMap Request.interned?

/-- The number of handles after requests, of which there is one at the beginning. -/
def handleCount (requests : List Request) : Nat :=
  1 + requests.countP (·.call = .share)

/-- Every request comes through a handle that exists at its time. -/
def HandlesKnown (before : List Request) : List Request → Prop
  | [] => True
  | request :: requests =>
    request.handle < handleCount before ∧ HandlesKnown (before ++ [request]) requests

instance decidableHandlesKnown : (before requests : List Request) →
    Decidable (HandlesKnown before requests)
  | _, [] => inferInstanceAs (Decidable True)
  | before, request :: requests =>
    have := decidableHandlesKnown (before ++ [request]) requests
    inferInstanceAs (Decidable
      (request.handle < handleCount before ∧ HandlesKnown (before ++ [request]) requests))

/-- The answer to a call after the requests `before`. -/
def reply (before : List Request) : Call → Answer
  | .intern s => .name ⟨(numbering (interned before ++ [s])).idxOf s⟩
  | .text name => .text ((numbering (interned before))[name.id]?.getD "")
  | .size => .count (numbering (interned before)).length
  | .share => .handle (handleCount before)

/-- The answers to requests that follow the requests `before`. -/
def replies (before : List Request) : List Request → List Answer
  | [] => []
  | request :: requests => reply before request.call :: replies (before ++ [request]) requests

theorem getElem?_replies (before requests : List Request) (i : Nat) :
    (replies before requests)[i]? =
      requests[i]?.map fun request => reply (before ++ requests.take i) request.call := by
  induction requests generalizing before i with
  | nil => rfl
  | cons request requests ih =>
      rcases i with _ | i
      · simp [replies]
      · simp [replies, ih]

theorem interned_append (first second : List Request) :
    interned (first ++ second) = interned first ++ interned second :=
  List.filterMap_append

theorem handleCount_append_singleton (before : List Request) (request : Request) :
    handleCount (before ++ [request]) =
      handleCount before + if request.call = .share then 1 else 0 := by
  rw [handleCount, handleCount, List.countP_append, List.countP_singleton, Nat.add_assoc]
  simp

/-- The pool has one table, to which all handles lead, and the table holds the numbering of
the strings that have been interned. -/
structure Serves (pool : Pool) (before : List Request) (table : Interner) : Prop where
  tables_eq : pool.tables = #[table]
  handles_eq : pool.handles.toList = List.replicate (handleCount before) 0
  numbers : table.Numbers (interned before)

theorem serves_start : Serves Pool.start [] empty where
  tables_eq := rfl
  handles_eq := rfl
  numbers := numbers_empty

namespace Serves

variable {pool : Pool} {before : List Request} {handle : Nat}

theorem size_handles (h : Serves pool before table) :
    pool.handles.size = handleCount before := by
  rw [← Array.length_toList, h.handles_eq, List.length_replicate]

theorem getElem?_handles (h : Serves pool before table) (hhandle : handle < handleCount before) :
    pool.handles[handle]? = some 0 := by
  rw [← Array.getElem?_toList, h.handles_eq, List.getElem?_replicate, if_pos hhandle]

theorem table?_eq (h : Serves pool before table) (hhandle : handle < handleCount before) :
    pool.table? handle = some table := by
  simp [Pool.table?, h.getElem?_handles hhandle, h.tables_eq]

theorem update_eq (h : Serves pool before table) (hhandle : handle < handleCount before)
    (after : Interner) :
    pool.update handle after = { pool with tables := #[after] } := by
  simp [Pool.update, h.getElem?_handles hhandle, h.tables_eq]

theorem intern?_eq (h : Serves pool before table) (hhandle : handle < handleCount before)
    {s : String} {name : Name} {after : Interner} (hintern : table.intern s = .ok (name, after)) :
    pool.intern? handle s = some (.ok (name, { pool with tables := #[after] })) := by
  rw [Pool.intern?, h.table?_eq hhandle]
  simp [hintern, Except.map, h.update_eq hhandle]

/-- A known string is interned once more without any change. -/
theorem intern?_of_mem (h : Serves pool before table) (hhandle : handle < handleCount before)
    {s : String} (hs : s ∈ numbering (interned before)) :
    pool.intern? handle s =
      some (.ok (⟨(numbering (interned before)).idxOf s⟩, pool)) := by
  rw [h.intern?_eq hhandle (h.numbers.intern_of_mem hs), ← h.tables_eq]

/-- A request that neither interns a string nor makes a handle changes nothing. -/
theorem append_reading (h : Serves pool before table) {request : Request}
    (hinterned : request.interned? = none) (hshare : request.call ≠ .share) :
    Serves pool (before ++ [request]) table := by
  have hstrings : interned (before ++ [request]) = interned before := by
    rw [interned_append, interned, interned, List.filterMap_cons_none hinterned,
      List.filterMap_nil, List.append_nil]
  refine ⟨h.tables_eq, ?_, hstrings ▸ h.numbers⟩
  rw [handleCount_append_singleton, if_neg hshare]
  exact h.handles_eq

theorem append_intern (h : Serves pool before table) {s : String} {after : Interner}
    (hnumbers : after.Numbers (interned before ++ [s])) (handle : Nat) :
    Serves { pool with tables := #[after] } (before ++ [⟨handle, .intern s⟩]) after := by
  refine ⟨rfl, ?_, ?_⟩
  · rw [handleCount_append_singleton, if_neg nofun]
    exact h.handles_eq
  · rw [interned_append]
    exact hnumbers

theorem append_share (h : Serves pool before table) (handle : Nat) :
    Serves { pool with handles := pool.handles.push 0 } (before ++ [⟨handle, .share⟩]) table := by
  refine ⟨h.tables_eq, ?_, ?_⟩
  · rw [handleCount_append_singleton, if_pos rfl, Array.toList_push, h.handles_eq]
    exact List.replicate_succ'.symm
  · rw [interned_append]
    exact (List.append_nil (interned before)).symm ▸ h.numbers

/-- A request through a known handle has the answer that the requests before it determine. -/
theorem ask (h : Serves pool before table) {request : Request}
    (hhandle : request.handle < handleCount before)
    (hroom : (numbering (interned (before ++ [request]))).length ≤ capacity) :
    ∃ next after, pool.ask request.handle request.call = .ok (reply before request.call, next) ∧
      Serves next (before ++ [request]) after := by
  obtain ⟨handle, s | name | _ | _⟩ := request
  · rw [interned_append] at hroom
    obtain ⟨after, hnumbers, hintern⟩ := h.numbers.intern s hroom
    refine ⟨_, after, ?_, h.append_intern hnumbers handle⟩
    rw [Pool.ask, h.intern?_eq hhandle hintern]
    rfl
  · refine ⟨pool, table, ?_, h.append_reading rfl nofun⟩
    rw [Pool.ask, h.table?_eq hhandle, reply, ← h.numbers.text_eq]
  · refine ⟨pool, table, ?_, h.append_reading rfl nofun⟩
    rw [Pool.ask, h.table?_eq hhandle, reply, ← h.numbers.size_eq]
  · refine ⟨_, table, ?_, h.append_share handle⟩
    rw [Pool.ask, Pool.share, h.getElem?_handles hhandle, reply, ← h.size_handles]
    rfl

/-- All requests through known handles have the answers that the requests before them
determine. -/
theorem askAll (h : Serves pool before table) {requests : List Request}
    (hhandles : HandlesKnown before requests)
    (hroom : (numbering (interned (before ++ requests))).length ≤ capacity) :
    ∃ last after, pool.askAll requests = .ok (replies before requests, last) ∧
      Serves last (before ++ requests) after := by
  induction requests generalizing pool before table with
  | nil => exact ⟨pool, table, rfl, by rwa [List.append_nil]⟩
  | cons request requests ih =>
      obtain ⟨hhandle, hrest⟩ := hhandles
      rw [List.append_cons] at hroom ⊢
      have hroom' : (numbering (interned (before ++ [request]))).length ≤ capacity := by
        rw [interned_append (before ++ [request])] at hroom
        exact Nat.le_trans (numbering_isPrefix_append _ _).length_le hroom
      obtain ⟨next, middle, hask, hnext⟩ := h.ask hhandle hroom'
      obtain ⟨last, after, hall, hlast⟩ := ih hnext hrest hroom
      refine ⟨last, after, ?_, hlast⟩
      rw [Pool.askAll, hask]
      simp only [bind, Except.bind, hall]
      rfl

end Serves

/-! ## Names in the answers -/

/-- The request with number `i` interns `s`, and the answer to it is `name`. -/
def Named (requests : List Request) (i : Nat) (s : String) (name : Name) : Prop :=
  requests[i]?.bind Request.interned? = some s ∧
    (replies [] requests)[i]? = some (.name name)

/-- The answer names the number that the string has from then on. -/
theorem Named.eq_idxOf {requests : List Request} {i : Nat} {s : String} {name : Name}
    (h : Named requests i s name) {n : Nat} (hn : i < n) :
    s ∈ numbering (interned (requests.take n)) ∧
      name = ⟨(numbering (interned (requests.take n))).idxOf s⟩ := by
  obtain ⟨hinterned, hanswer⟩ := h
  obtain ⟨request, hrequest, hs⟩ := Option.bind_eq_some_iff.1 hinterned
  have htake : requests.take n =
      requests.take i ++ [request] ++ (requests.take n).drop (i + 1) := by
    have hget : (requests.take n)[i]? = some request := by
      rw [List.getElem?_take_of_lt hn, hrequest]
    have hfirst : (requests.take n).take (i + 1) = requests.take i ++ [request] := by
      rw [List.take_add_one, hget, List.take_take, Nat.min_eq_left (Nat.le_of_lt hn)]
      rfl
    rw [← hfirst, List.take_append_drop]
  have hstrings : interned (requests.take i ++ [request]) = interned (requests.take i) ++ [s] := by
    rw [interned_append]
    exact congrArg _ (List.filterMap_cons_some hs)
  have hmem : s ∈ numbering (interned (requests.take i ++ [request])) := by
    rw [hstrings, mem_numbering]
    exact Or.inr (by simp)
  rw [htake, interned_append _ ((requests.take n).drop (i + 1)), idxOf_numbering_append hmem,
    hstrings]
  constructor
  · exact (numbering_isPrefix_append _ _).subset (hstrings ▸ hmem)
  · rw [getElem?_replies, hrequest, List.nil_append] at hanswer
    obtain ⟨handle, t | _ | _ | _⟩ := request
    · obtain rfl : t = s := Option.some.inj hs
      exact (Answer.name.inj (Option.some.inj hanswer)).symm
    all_goals exact absurd hs nofun

end Interner

open Interner in
/-- An interner numbers strings one to one, in the order of their first occurrence.

All requests through known handles are answered, as long as fewer than `capacity` distinct
strings are interned; `replies` gives the answers.  In the end all handles lead to one
table.  Its two views are inverse to each other, no string is stored twice, and the empty
string comes first, followed by the others in the order of their first occurrence.  A name
that is not in use has the empty text.  Two requests to intern strings have the same answer
exactly if the strings are equal; the name has the string as its text in every later answer
and in the end, and interning the string again changes nothing. -/
theorem interner_numbers_first_occurrences
    (requests : List Request) (hhandles : HandlesKnown [] requests)
    (hfew : (interned requests).toFinset.card < capacity) :
    ∃ pool table,
      Pool.start.askAll requests = .ok (replies [] requests, pool) ∧
      (∀ handle < pool.handles.size, pool.table? handle = some table) ∧
      table.texts.toList.Nodup ∧
      table.texts[0]? = some "" ∧
      (∀ (s : String) (k : Nat), table.index[s]? = some k ↔ table.texts[k]? = some s) ∧
      table.texts.toList = ("" :: interned requests).eraseDups ∧
      table.size = 1 + ((interned requests).filter (· ≠ "")).toFinset.card ∧
      (∀ name, table.size ≤ name.id → table.text name = "") ∧
      (∀ i j s t a b, Named requests i s a → Named requests j t b → (a = b ↔ s = t)) ∧
      (∀ i j s name, Named requests i s name → i < j →
        requests[j]?.map Request.call = some (.text name) →
        (replies [] requests)[j]? = some (.text s)) ∧
      (∀ i s name, Named requests i s name →
        table.text name = s ∧
        ∀ handle < pool.handles.size, pool.intern? handle s = some (.ok (name, pool))) := by
  have hroom : (numbering (interned requests)).length ≤ capacity := by
    have hsubset : ((interned requests).filter (· ≠ "")).toFinset ⊆
        (interned requests).toFinset := by
      intro s hs
      rw [List.mem_toFinset] at hs ⊢
      exact List.mem_of_mem_filter hs
    have hcard := Finset.card_le_card hsubset
    rw [length_numbering]
    omega
  obtain ⟨pool, table, hanswers, hserves⟩ := serves_start.askAll hhandles hroom
  rw [List.nil_append] at hserves
  have hnumbers := hserves.numbers
  have hnamed : ∀ i s name, Named requests i s name →
      s ∈ numbering (interned requests) ∧ name = ⟨(numbering (interned requests)).idxOf s⟩ := by
    intro i s name h
    obtain ⟨request, hrequest, -⟩ := Option.bind_eq_some_iff.1 h.1
    obtain ⟨hlt, -⟩ := List.getElem?_eq_some_iff.1 hrequest
    simpa using h.eq_idxOf hlt
  refine ⟨pool, table, hanswers, fun handle hlt => hserves.table?_eq (hserves.size_handles ▸ hlt),
    ?_, ?_, hnumbers.index_iff, hnumbers.texts_eq, ?_, ?_, ?_, ?_, ?_⟩
  · rw [hnumbers.texts_eq]
    exact nodup_numbering _
  · rw [hnumbers.getElem?_texts, getElem?_numbering_zero]
  · rw [hnumbers.size_eq, length_numbering]
  · intro name hname
    rw [hnumbers.size_eq] at hname
    rw [hnumbers.text_eq, List.getElem?_eq_none hname]
    rfl
  · intro i j s t a b hs ht
    obtain ⟨hsmem, rfl⟩ := hnamed i s a hs
    obtain ⟨htmem, rfl⟩ := hnamed j t b ht
    rw [Name.mk.injEq]
    exact List.idxOf_inj hsmem
  · intro i j s name hs hlt hcall
    obtain ⟨request, hrequest, hcalls⟩ := Option.map_eq_some_iff.1 hcall
    obtain ⟨hmem, rfl⟩ := hs.eq_idxOf hlt
    rw [getElem?_replies, hrequest, Option.map_some, hcalls, List.nil_append, reply,
      getElem?_idxOf_numbering hmem]
    rfl
  · intro i s name hs
    obtain ⟨hmem, rfl⟩ := hnamed i s name hs
    constructor
    · rw [hnumbers.text_eq, getElem?_idxOf_numbering hmem]
      rfl
    · intro handle hlt
      exact hserves.intern?_of_mem (hserves.size_handles ▸ hlt) hmem

open Interner in
/-- Two handles are used in turn; `x` and the empty string are interned repeatedly. -/
def sharedRequests : List Request :=
  [⟨0, .intern "x"⟩, ⟨0, .share⟩, ⟨1, .intern "y"⟩, ⟨1, .intern ""⟩, ⟨1, .intern "x"⟩,
    ⟨0, .text ⟨2⟩⟩, ⟨0, .text ⟨3⟩⟩, ⟨1, .size⟩]

open Interner in
theorem sharedRequests_answered :
    HandlesKnown [] sharedRequests ∧ (interned sharedRequests).toFinset.card < capacity ∧
      ∃ pool table,
        Pool.start.askAll sharedRequests =
          .ok ([.name ⟨1⟩, .handle 1, .name ⟨2⟩, .name ⟨0⟩, .name ⟨1⟩, .text "y", .text "",
            .count 3], pool) ∧
        (∀ handle < pool.handles.size, pool.table? handle = some table) ∧
        table.texts.toList = ["", "x", "y"] ∧ table.index["y"]? = some 2 := by
  have hhandles : HandlesKnown [] sharedRequests := by decide
  have hfew : (interned sharedRequests).toFinset.card < capacity := by decide
  obtain ⟨pool, table, hanswers, htable, -, -, hinverse, htexts, -⟩ :=
    interner_numbers_first_occurrences sharedRequests hhandles hfew
  have hreplies : replies [] sharedRequests =
      [.name ⟨1⟩, .handle 1, .name ⟨2⟩, .name ⟨0⟩, .name ⟨1⟩, .text "y", .text "",
        .count 3] := by
    decide
  have hnumbering : ("" :: interned sharedRequests).eraseDups = ["", "x", "y"] := by decide
  refine ⟨hhandles, hfew, pool, table, hreplies ▸ hanswers, htable, htexts.trans hnumbering, ?_⟩
  rw [hinverse, ← Array.getElem?_toList, htexts, hnumbering]
  rfl

end ExprTyping
