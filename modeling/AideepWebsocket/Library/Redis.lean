import Mathlib.Data.List.Perm.Basic
import Mathlib.Data.Nat.Notation
import Mathlib.Logic.Function.Basic

/-!
# Redis

What the server uses of Redis: strings, hashes and lists under textual keys, and the
commands on them.  A key holds a value of one type, and a command of another type is
answered with an error; a hash or a list that has become empty is gone.

* `Entry` — a value, with the seconds it has been given to live, if any.  When they have
  passed the key lapses; the clock itself is left out;
* `Command.run` — a command on the entry of its key, with the answer;
* `execute` — the same on the store.  It touches no other key, which is all that matters
  to those who share the store (`execute_of_ne`).

The fields of a hash are kept in the order in which they were set.  Redis promises nothing
about the order in which `HGETALL` lists them; it is a parameter (`HashOrder`).
-/

namespace AideepWebsocket.Library.Redis

/-- What a key holds; its type is that of the first command that wrote it. -/
inductive Value
  | string (text : String)
  | hash (fields : List (String × String))
  | list (items : List String)
  deriving DecidableEq

/-- A value, and the seconds that it was last given to live. -/
structure Entry where
  value : Value
  ttl : Option ℕ
  deriving DecidableEq

/-- What Redis holds under its keys. -/
abbrev Store := String → Option Entry

/-- The commands that are used, with their arguments. -/
inductive Command
  | get (key : String)
  /-- `SET key value EX ex`, with `NX` if `nx`. -/
  | set (key value : String) (ex : ℕ) (nx : Bool)
  | del (key : String)
  | hSet (key field value : String)
  | hDel (key field : String)
  | hGetAll (key : String)
  | expire (key : String) (seconds : ℕ)
  | rPush (key item : String)
  deriving DecidableEq

/-- What a client is answered; `nil` stands for a missing value. -/
inductive Answer
  | nil
  | ok
  | integer (n : ℕ)
  | text (value : String)
  | fields (fields : List (String × String))
  | wrongType
  deriving DecidableEq

/-- The order in which `HGETALL` lists the fields of a hash, by its encoding. -/
structure HashOrder where
  list : List (String × String) → List (String × String)
  perm : ∀ fields, (list fields).Perm fields

/-- The order in which the fields were set, which a small hash keeps. -/
def HashOrder.set : HashOrder where
  list := id
  perm fields := .refl fields

namespace Command

/-- The one key that a command is about. -/
def key : Command → String
  | get key | set key .. | del key | hSet key .. | hDel key _ | hGetAll key | expire key _
  | rPush key _ => key

/-- Set a field: an old one keeps its place. -/
def setField (fields : List (String × String)) (field value : String) : List (String × String) :=
  if fields.any fun f => f.1 = field then
    fields.map fun f => if f.1 = field then (field, value) else f
  else fields ++ [(field, value)]

/-- Delete a field: the others keep their places. -/
def deleteField (fields : List (String × String)) (field : String) : List (String × String) :=
  fields.filter fun f => f.1 ≠ field

/-- A hash without fields is no entry. -/
def hashEntry (fields : List (String × String)) (ttl : Option ℕ) : Option Entry :=
  if fields = [] then none else some ⟨.hash fields, ttl⟩

/-- A command, on the entry of its key. -/
def run (order : HashOrder) : Command → Option Entry → Option Entry × Answer
  | get _, entry =>
      match entry with
      | none => (entry, .nil)
      | some ⟨.string text, _⟩ => (entry, .text text)
      | some _ => (entry, .wrongType)
  | set _ value ex nx, entry =>
      if nx && entry.isSome then (entry, .nil) else (some ⟨.string value, some ex⟩, .ok)
  | del _, entry => (none, .integer (if entry.isSome then 1 else 0))
  | hSet _ field value, entry =>
      match entry with
      | none => (some ⟨.hash [(field, value)], none⟩, .integer 1)
      | some ⟨.hash fields, ttl⟩ =>
          (some ⟨.hash (setField fields field value), ttl⟩,
            .integer (if fields.any fun f => f.1 = field then 0 else 1))
      | some _ => (entry, .wrongType)
  | hDel _ field, entry =>
      match entry with
      | none => (entry, .integer 0)
      | some ⟨.hash fields, ttl⟩ =>
          (hashEntry (deleteField fields field) ttl,
            .integer (if fields.any fun f => f.1 = field then 1 else 0))
      | some _ => (entry, .wrongType)
  | hGetAll _, entry =>
      match entry with
      | none => (entry, .fields [])
      | some ⟨.hash fields, _⟩ => (entry, .fields (order.list fields))
      | some _ => (entry, .wrongType)
  | expire _ seconds, entry =>
      match entry with
      | none => (none, .integer 0)
      | some e => (some { e with ttl := some seconds }, .integer 1)
  | rPush _ item, entry =>
      match entry with
      | none => (some ⟨.list [item], none⟩, .integer 1)
      | some ⟨.list items, ttl⟩ =>
          (some ⟨.list (items ++ [item]), ttl⟩, .integer (items.length + 1))
      | some _ => (entry, .wrongType)

/-- A read changes nothing. -/
theorem run_get (order : HashOrder) (k : String) (entry : Option Entry) :
    ((get k).run order entry).1 = entry := by
  rcases entry with _ | ⟨_ | _ | _, _⟩ <;> rfl

/-! ### Commands on a hash -/

section Hash

variable {order : HashOrder} {k field value : String} {fields : List (String × String)}
  {ttl : Option ℕ}

/-- A hash with a field is an entry. -/
private theorem hashEntry_of_ne (h : fields ≠ []) :
    hashEntry fields ttl = some ⟨.hash fields, ttl⟩ :=
  if_neg h

/-- A hash in which a field has been set is not empty. -/
private theorem setField_ne_nil : setField fields field value ≠ [] := by
  unfold setField
  split
  · next hany =>
      rintro heq
      rw [List.map_eq_nil_iff.mp heq] at hany
      cases hany
  · exact List.append_ne_nil_of_right_ne_nil _ (List.cons_ne_nil _ _)

variable (order k field value fields ttl)

/-- `HSET` on a hash, or on nothing. -/
theorem run_hSet : ∃ ttl' n, (hSet k field value).run order (hashEntry fields ttl) =
    (hashEntry (setField fields field value) ttl', .integer n) := by
  by_cases h : fields = []
  · subst h
    exact ⟨none, 1, rfl⟩
  · rw [hashEntry_of_ne h]
    exact ⟨ttl, _, (congrArg (·, Answer.integer _) (hashEntry_of_ne setField_ne_nil)).symm⟩

/-- `HDEL` on a hash; with its last field the hash is gone. -/
theorem run_hDel : ∃ n, (hDel k field).run order (hashEntry fields ttl) =
    (hashEntry (deleteField fields field) ttl, .integer n) := by
  by_cases h : fields = []
  · subst h
    exact ⟨0, rfl⟩
  · rw [hashEntry_of_ne h]
    exact ⟨_, rfl⟩

/-- `HGETALL` lists the fields in the order of Redis. -/
theorem run_hGetAll : (hGetAll k).run order (hashEntry fields ttl) =
    (hashEntry fields ttl, .fields (order.list fields)) := by
  by_cases h : fields = []
  · subst h
    rw [(order.perm []).eq_nil]
    rfl
  · rw [hashEntry_of_ne h]
    rfl

/-- `EXPIRE` leaves the fields as they are. -/
theorem run_expire (seconds : ℕ) : ∃ ttl' n,
    (expire k seconds).run order (hashEntry fields ttl) = (hashEntry fields ttl', .integer n) := by
  by_cases h : fields = []
  · subst h
    exact ⟨none, 0, rfl⟩
  · rw [hashEntry_of_ne h]
    exact ⟨some seconds, 1, (congrArg (·, Answer.integer 1) (hashEntry_of_ne h)).symm⟩

end Hash

end Command

/-- Redis executes a command, and answers it. -/
def execute (order : HashOrder) (store : Store) (command : Command) : Store × Answer :=
  let (entry, answer) := command.run order (store command.key)
  (Function.update store command.key entry, answer)

/-- The string under a key. -/
def textOf (store : Store) (key : String) : Option String :=
  match store key with
  | some ⟨.string text, _⟩ => some text
  | _ => none

/-- A key lapses; only one that has been given a time to live does. -/
def lapse (store : Store) (key : String) : Option Store :=
  match store key with
  | some ⟨_, some _⟩ => some (Function.update store key none)
  | _ => none

variable {order : HashOrder} {store : Store} {command : Command} {key : String}

/-- The answer depends on the entry of the key alone. -/
theorem answer_execute :
    (execute order store command).2 = (command.run order (store command.key)).2 := rfl

/-- Under its key, a command leaves what it makes of the entry. -/
theorem execute_self :
    (execute order store command).1 command.key = (command.run order (store command.key)).1 :=
  Function.update_self ..

/-- **A command touches no other key.** -/
theorem execute_of_ne (h : key ≠ command.key) : (execute order store command).1 key = store key :=
  Function.update_of_ne h ..

/-- A string is what `GET` answers. -/
theorem execute_get_eq_text {text : String} :
    (execute order store (.get key)).2 = .text text ↔ textOf store key = some text := by
  rw [answer_execute, textOf, show (Command.get key).key = key from rfl]
  rcases store key with _ | ⟨_ | _ | _, _⟩ <;> simp [Command.run]

/-- What lapses had been given a time to live. -/
theorem lapse_eq_some {store' : Store} (h : lapse store key = some store') :
    (∃ value ttl, store key = some ⟨value, some ttl⟩) ∧
      store' = Function.update store key none := by
  unfold lapse at h
  split at h
  · next value ttl heq =>
      cases h
      exact ⟨⟨value, ttl, heq⟩, rfl⟩
  · cases h

end AideepWebsocket.Library.Redis
