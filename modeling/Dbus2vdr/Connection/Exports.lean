import Dbus2vdr.CString
import Dbus2vdr.Connection.Status

/-!
# The objects on the bus

What `Connection.Link` says of the objects of a connection in one word, whether they are registered,
in full: `cDBusObject::Register` registers the object once for each interface of its introspection
data and keeps the ids, and `Unregister` takes back what these ids stand for. GDBus itself is a
parameter: all that is used of it is `Gdbus.Lawful`. A connection has an interface of a path once: a
second object with the same path and interface gets the id 0 and is not reached.

With one `Connect` GDBus always says the same as the objects: `exact_of_run`.
-/

namespace Dbus2vdr

/-- What a `GDBusConnection` has for an interface of a path: the id of the registration and its user
data, the object. -/
structure Registration where
  id : Nat
  object : Nat
  deriving DecidableEq, Repr

/-- What is used of GDBus, over all connections. -/
structure Gdbus where
  Table : Type
  empty : Table
  /-- The registration that gets the method calls to an interface of a path on a connection. -/
  exported : Table → Nat → Bytes → Bytes → Option Registration
  /-- `g_dbus_connection_register_object`: the id it returns, and the table then -/
  registerObject : Table → Nat → Bytes → Bytes → Nat → Nat × Table
  /-- `g_dbus_connection_unregister_object` -/
  unregisterObject : Table → Nat → Nat → Table

/-- What is documented of `g_dbus_connection_register_object` and
`g_dbus_connection_unregister_object`. -/
structure Gdbus.Lawful (gdbus : Gdbus) : Prop where
  exported_empty : ∀ conn path interface, gdbus.exported gdbus.empty conn path interface = none
  /-- An interface that the path has already is refused. -/
  taken : ∀ g conn path interface object, gdbus.exported g conn path interface ≠ none →
    (gdbus.registerObject g conn path interface object).1 = 0 ∧ ∀ c p i,
      gdbus.exported (gdbus.registerObject g conn path interface object).2 c p i =
        gdbus.exported g c p i
  /-- The id of a registration is not 0. -/
  free : ∀ g conn path interface object, gdbus.exported g conn path interface = none →
    (gdbus.registerObject g conn path interface object).1 ≠ 0 ∧ ∀ c p i,
      gdbus.exported (gdbus.registerObject g conn path interface object).2 c p i =
        if c = conn ∧ p = path ∧ i = interface then
          some ⟨(gdbus.registerObject g conn path interface object).1, object⟩
        else gdbus.exported g c p i
  unregistered : ∀ g conn id c p i,
    gdbus.exported (gdbus.unregisterObject g conn id) c p i =
      (gdbus.exported g c p i).filter fun r => ¬ (c = conn ∧ r.id = id)

/-- A `cDBusObject`, with the names of the interfaces in `_introspection_data`. -/
structure DBusObject where
  path : Bytes
  interfaces : List Bytes
  registrationIds : Option (List Nat) := none
  deriving DecidableEq, Repr

namespace DBusObject

/-- The loop of `Unregister`. -/
def unregisterIds (gdbus : Gdbus) (conn : Nat) : List Nat → gdbus.Table → gdbus.Table
  | [], g => g
  | id :: ids, g =>
      unregisterIds gdbus conn ids (if id ≠ 0 then gdbus.unregisterObject g conn id else g)

def unregister (o : DBusObject) (gdbus : Gdbus) (connection : Option Nat) (g : gdbus.Table) :
    DBusObject × gdbus.Table :=
  match o.registrationIds, connection with
  | none, _ => (o, g)
  | some _, none => ({ o with registrationIds := none }, g)
  | some ids, some conn => ({ o with registrationIds := none }, unregisterIds gdbus conn ids g)

/-- The loop of `Register`. -/
def registerInterfaces (gdbus : Gdbus) (conn : Nat) (path : Bytes) (object : Nat) :
    List Bytes → gdbus.Table → List Nat × gdbus.Table
  | [], g => ([], g)
  | interface :: interfaces, g =>
      let first := gdbus.registerObject g conn path interface object
      let rest := registerInterfaces gdbus conn path object interfaces first.2
      (first.1 :: rest.1, rest.2)

def register (o : DBusObject) (gdbus : Gdbus) (connection : Option Nat) (object : Nat)
    (g : gdbus.Table) : DBusObject × gdbus.Table :=
  match connection with
  | none => (o, g)
  | some conn =>
      let cleared := o.unregister gdbus connection g
      let done := registerInterfaces gdbus conn o.path object o.interfaces cleared.2
      ({ cleared.1 with registrationIds := some done.1 }, done.2)

end DBusObject

structure Exports (gdbus : Gdbus) where
  link : Link
  objects : List DBusObject := []
  table : gdbus.Table := gdbus.empty

inductive ExportsEvent where
  | link (e : LinkEvent)
  | addObject (path : Bytes) (interfaces : List Bytes)
  deriving DecidableEq, Repr

namespace Exports

variable {gdbus : Gdbus}

def new (gdbus : Gdbus) (target : BusTarget) (named : Bool) : Exports gdbus :=
  { link := Link.new target named }

/-- `RegisterObjects`, from the object with this number. -/
def registerObjects (gdbus : Gdbus) (connection : Option Nat) :
    Nat → List DBusObject → gdbus.Table → List DBusObject × gdbus.Table
  | _, [], g => ([], g)
  | object, o :: objects, g =>
      let first := o.register gdbus connection object g
      let rest := registerObjects gdbus connection (object + 1) objects first.2
      (first.1 :: rest.1, rest.2)

/-- `UnregisterObjects` -/
def unregisterObjects (gdbus : Gdbus) (connection : Option Nat) :
    List DBusObject → gdbus.Table → List DBusObject × gdbus.Table
  | [], g => ([], g)
  | o :: objects, g =>
      let first := o.unregister gdbus connection g
      let rest := unregisterObjects gdbus connection objects first.2
      (first.1 :: rest.1, rest.2)

def withObjects (s : Exports gdbus) (r : List DBusObject × gdbus.Table) : Exports gdbus :=
  { s with objects := r.1, table := r.2 }

/-- What a callback does to the objects: `on_bus_get` registers them on the new connection,
`on_name_lost` and `do_disconnect` unregister them, both for a connection with a name. -/
def callback (s : Exports gdbus) : LinkEvent → Exports gdbus
  | .onBusGet true =>
      if s.link.named then
        s.withObjects (registerObjects gdbus (some s.link.made) 0 s.objects s.table)
      else s
  | .onNameLost _ | .doDisconnect =>
      if s.link.named ∧ s.link.connection.isSome then
        s.withObjects (unregisterObjects gdbus s.link.connection s.objects s.table)
      else s
  | _ => s

def Enabled (s : Exports gdbus) : ExportsEvent → Prop
  | .link e => s.link.Enabled e ∧ e ≠ .addObject
  | .addObject _ _ => True

def after (s : Exports gdbus) : ExportsEvent → Exports gdbus
  | .link e => { s.callback e with link := s.link.after e }
  | .addObject path interfaces =>
      { s with
        link := s.link.after .addObject
        objects := s.objects ++ [{ path, interfaces }] }

instance decidableEnabled (s : Exports gdbus) : DecidablePred s.Enabled
  | .link e => inferInstanceAs (Decidable (s.link.Enabled e ∧ e ≠ .addObject))
  | .addObject _ _ => inferInstanceAs (Decidable True)

def step : Machine.Step (Exports gdbus) ExportsEvent := fun s e =>
  if s.Enabled e then some (s.after e) else none

theorem step_eq_some {s s' : Exports gdbus} {e : ExportsEvent} :
    step s e = some s' ↔ s.Enabled e ∧ s.after e = s' := by
  unfold step
  split_ifs with henabled <;> simp [henabled]

end Exports

/-! ### What registering adds -/

variable {gdbus : Gdbus}

/-- The object that gets the method calls to an interface of a path. -/
def Gdbus.target (gdbus : Gdbus) (g : gdbus.Table) (conn : Nat) (path interface : Bytes) :
    Option Nat :=
  (gdbus.exported g conn path interface).map Registration.object

theorem Gdbus.Lawful.target_registerObject (hgdbus : gdbus.Lawful) (g : gdbus.Table) (conn : Nat)
    (path interface : Bytes) (object c : Nat) (p i : Bytes) :
    gdbus.target (gdbus.registerObject g conn path interface object).2 c p i =
      (gdbus.target g c p i).or
        (if c = conn ∧ p = path ∧ i = interface then some object else none) := by
  unfold target
  cases hfound : gdbus.exported g conn path interface with
  | some r =>
      rw [(hgdbus.taken g conn path interface object (by simp [hfound])).2]
      split_ifs with hsame
      · obtain ⟨rfl, rfl, rfl⟩ := hsame
        simp [hfound]
      · rw [Option.or_none]
  | none =>
      rw [(hgdbus.free g conn path interface object hfound).2]
      split_ifs with hsame
      · obtain ⟨rfl, rfl, rfl⟩ := hsame
        simp [hfound]
      · rw [Option.or_none]

theorem Gdbus.Lawful.exported_registerObject (hgdbus : gdbus.Lawful) {g : gdbus.Table} {conn : Nat}
    {path interface : Bytes} {object c : Nat} {p i : Bytes} {r : Registration}
    (hr : r ∈ gdbus.exported (gdbus.registerObject g conn path interface object).2 c p i) :
    r ∈ gdbus.exported g c p i ∨
      (c = conn ∧
        r.id = (gdbus.registerObject g conn path interface object).1 ∧ r.id ≠ 0) := by
  cases hfound : gdbus.exported g conn path interface with
  | some _ =>
      rw [(hgdbus.taken g conn path interface object (by simp [hfound])).2] at hr
      exact .inl hr
  | none =>
      obtain ⟨hid, hexported⟩ := hgdbus.free g conn path interface object hfound
      rw [hexported] at hr
      split_ifs at hr with hsame
      · obtain rfl := Option.some.inj hr
        exact .inr ⟨hsame.1, rfl, hid⟩
      · exact .inl hr

namespace DBusObject

theorem target_registerInterfaces (hgdbus : gdbus.Lawful) (conn : Nat) (path : Bytes) (object : Nat)
    (interfaces : List Bytes) (g : gdbus.Table) (c : Nat) (p i : Bytes) :
    gdbus.target (registerInterfaces gdbus conn path object interfaces g).2 c p i =
      (gdbus.target g c p i).or
        (if c = conn ∧ p = path ∧ i ∈ interfaces then some object else none) := by
  induction interfaces generalizing g with
  | nil => simp [registerInterfaces]
  | cons interface interfaces ih =>
      rw [registerInterfaces, ih, hgdbus.target_registerObject, Option.or_assoc]
      congr 1
      by_cases hhere : c = conn ∧ p = path
      · obtain ⟨rfl, rfl⟩ := hhere
        by_cases hfirst : i = interface <;> simp [hfirst]
      · have hnot : ∀ P : Prop, ¬ (c = conn ∧ p = path ∧ P) :=
          fun P h => hhere ⟨h.1, h.2.1⟩
        simp [hnot]

theorem exported_registerInterfaces (hgdbus : gdbus.Lawful) {conn : Nat} {path : Bytes}
    {object : Nat} {interfaces : List Bytes} {g : gdbus.Table} {c : Nat} {p i : Bytes}
    {r : Registration}
    (hr : r ∈ gdbus.exported (registerInterfaces gdbus conn path object interfaces g).2 c p i) :
    r ∈ gdbus.exported g c p i ∨
      (c = conn ∧
        r.id ∈ (registerInterfaces gdbus conn path object interfaces g).1 ∧ r.id ≠ 0) := by
  induction interfaces generalizing g with
  | nil => exact .inl hr
  | cons interface interfaces ih =>
      rcases ih hr with hfirst | ⟨hconn, hid, hzero⟩
      · rcases hgdbus.exported_registerObject hfirst with hold | ⟨hconn, hid, hzero⟩
        · exact .inl hold
        · exact .inr ⟨hconn, hid ▸ List.mem_cons_self, hzero⟩
      · exact .inr ⟨hconn, List.mem_cons_of_mem _ hid, hzero⟩

theorem exported_unregisterIds (hgdbus : gdbus.Lawful) (conn : Nat) (ids : List Nat)
    (g : gdbus.Table) (c : Nat) (p i : Bytes) :
    gdbus.exported (unregisterIds gdbus conn ids g) c p i =
      (gdbus.exported g c p i).filter fun r => ¬ (c = conn ∧ r.id ≠ 0 ∧ r.id ∈ ids) := by
  induction ids generalizing g with
  | nil => cases hr : gdbus.exported g c p i <;> simp [unregisterIds, hr, Option.filter_some]
  | cons id ids ih =>
      rw [unregisterIds, ih]
      by_cases hid : id = 0
      · rw [if_neg (not_not.mpr hid)]
        congr 1
        funext r
        by_cases hr : r.id = 0 <;> simp [hid, hr]
      · rw [if_pos hid, hgdbus.unregistered, Option.filter_filter]
        congr 1
        funext r
        by_cases hr : r.id = id <;> simp +contextual [hr, hid]

/-- A registered object with this path and interface. -/
def Answers (path interface : Bytes) (o : DBusObject) : Prop :=
  o.registrationIds.isSome ∧ o.path = path ∧ interface ∈ o.interfaces

instance decidableAnswers (path interface : Bytes) : DecidablePred (Answers path interface) :=
  fun o =>
  inferInstanceAs
    (Decidable (o.registrationIds.isSome ∧ o.path = path ∧ interface ∈ o.interfaces))

def held (objects : List DBusObject) : List Nat :=
  objects.flatMap fun o => o.registrationIds.getD []

theorem register_of_none {o : DBusObject} (ho : o.registrationIds = none) (conn object : Nat)
    (g : gdbus.Table) :
    o.register gdbus (some conn) object g =
      ({ o with
          registrationIds := some (registerInterfaces gdbus conn o.path object o.interfaces g).1 },
        (registerInterfaces gdbus conn o.path object o.interfaces g).2) := by
  simp [register, unregister, ho]

end DBusObject

namespace Exports

open DBusObject

def first (objects : List DBusObject) (path interface : Bytes) : Option Nat :=
  objects.findIdx? fun o => o.Answers path interface

theorem first_cons (o : DBusObject) (objects : List DBusObject) (path interface : Bytes) :
    first (o :: objects) path interface =
      if o.Answers path interface then some 0 else (first objects path interface).map (· + 1) := by
  simp [first, List.findIdx?_cons]

theorem target_registerObjects (hgdbus : gdbus.Lawful) {conn : Nat} (object : Nat)
    {objects : List DBusObject} (g : gdbus.Table)
    (hnone : ∀ o ∈ objects, o.registrationIds = none) (c : Nat) (p i : Bytes) :
    gdbus.target (registerObjects gdbus (some conn) object objects g).2 c p i =
      (gdbus.target g c p i).or (if c = conn then
        (first (registerObjects gdbus (some conn) object objects g).1 p i).map (object + ·)
        else none) := by
  induction objects generalizing object g with
  | nil => simp [registerObjects, first]
  | cons o objects ih =>
      obtain ⟨ho, hrest⟩ := List.forall_mem_cons.mp hnone
      simp only [registerObjects]
      rw [ih (object + 1) _ hrest, register_of_none ho, target_registerInterfaces hgdbus,
        Option.or_assoc, first_cons]
      congr 1
      by_cases hc : c = conn
      · by_cases hanswers : o.path = p ∧ i ∈ o.interfaces
        · obtain ⟨rfl, hi⟩ := hanswers
          simp [hc, Answers, hi]
        · have hnot : ¬ (p = o.path ∧ i ∈ o.interfaces) :=
            fun h => hanswers ⟨h.1.symm, h.2⟩
          simp only [hc, Answers, hnot, hanswers, and_false, if_false, if_true, Option.none_or,
            Option.map_map]
          congr 1
          funext k
          simp only [Function.comp_apply]
          omega
      · simp [hc]

theorem exported_registerObjects (hgdbus : gdbus.Lawful) {conn object : Nat}
    {objects : List DBusObject} {g : gdbus.Table} {c : Nat} {p i : Bytes} {r : Registration}
    (hnone : ∀ o ∈ objects, o.registrationIds = none)
    (hr : r ∈ gdbus.exported (registerObjects gdbus (some conn) object objects g).2 c p i) :
    r ∈ gdbus.exported g c p i ∨ (c = conn ∧
      r.id ∈ held (registerObjects gdbus (some conn) object objects g).1 ∧ r.id ≠ 0) := by
  induction objects generalizing object g with
  | nil => exact .inl hr
  | cons o objects ih =>
      obtain ⟨ho, hrest⟩ := List.forall_mem_cons.mp hnone
      simp only [registerObjects] at hr ⊢
      rw [register_of_none ho] at hr ⊢
      rcases ih hrest hr with hfirst | ⟨hconn, hid, hzero⟩
      · rcases exported_registerInterfaces hgdbus hfirst with hold | ⟨hconn, hid, hzero⟩
        · exact .inl hold
        · exact .inr ⟨hconn, List.mem_append_left _ hid, hzero⟩
      · exact .inr ⟨hconn, List.mem_append_right _ hid, hzero⟩

theorem registered_registerObjects {conn object : Nat} {objects : List DBusObject}
    (g : gdbus.Table) (hnone : ∀ o ∈ objects, o.registrationIds = none) :
    ((registerObjects gdbus (some conn) object objects g).1.map fun o => o.registrationIds.isSome) =
      objects.map fun _ => true := by
  induction objects generalizing object g with
  | nil => rfl
  | cons o objects ih =>
      obtain ⟨ho, hrest⟩ := List.forall_mem_cons.mp hnone
      simp only [registerObjects]
      rw [List.map_cons, List.map_cons, ih _ hrest, register_of_none ho]
      rfl

theorem unregisterObjects_objects (connection : Option Nat) (objects : List DBusObject)
    (g : gdbus.Table) :
    (unregisterObjects gdbus connection objects g).1 =
      objects.map fun o => { o with registrationIds := none } := by
  induction objects generalizing g with
  | nil => rfl
  | cons o objects ih =>
      simp only [unregisterObjects]
      rw [ih, List.map_cons]
      obtain ⟨path, interfaces, ids⟩ := o
      cases ids <;> cases connection <;> rfl

theorem exported_unregisterObjects (hgdbus : gdbus.Lawful) (conn : Nat) (objects : List DBusObject)
    (g : gdbus.Table) (c : Nat) (p i : Bytes) :
    gdbus.exported (unregisterObjects gdbus (some conn) objects g).2 c p i =
      (gdbus.exported g c p i).filter fun r =>
      ¬ (c = conn ∧ r.id ≠ 0 ∧ r.id ∈ held objects) := by
  induction objects generalizing g with
  | nil =>
      cases hr : gdbus.exported g c p i <;> simp [unregisterObjects, held, hr, Option.filter_some]
  | cons o objects ih =>
      simp only [unregisterObjects]
      rw [ih]
      cases hids : o.registrationIds with
      | none => simp [DBusObject.unregister, hids, held]
      | some ids =>
          simp only [DBusObject.unregister, hids, exported_unregisterIds hgdbus,
            Option.filter_filter]
          congr 1
          funext r
          by_cases hr : c = conn ∧ r.id ≠ 0
          · by_cases hmem : r.id ∈ ids <;> simp [held, hids, hr, hmem]
          · have hnot : ∀ P : Prop, ¬ (c = conn ∧ r.id ≠ 0 ∧ P) :=
              fun P h => hr ⟨h.1, h.2.1⟩
            simp only [hnot, not_false_eq_true, decide_true, Bool.and_self]

/-! ### The table and the objects -/

/-- On every connection a method call reaches the first of the registered objects that have its path
and its interface, and they are registered on the present connection only; GDBus keeps nothing for
anyone else. -/
structure Exact (s : Exports gdbus) : Prop where
  agrees : s.link.objects.map Option.isSome = s.objects.map fun o => o.registrationIds.isSome
  reached : ∀ conn path interface, gdbus.target s.table conn path interface =
    if s.link.connection = some conn then first s.objects path interface else none
  owned : ∀ conn path interface, ∀ r ∈ gdbus.exported s.table conn path interface,
    s.link.connection = some conn ∧ r.id ≠ 0 ∧ r.id ∈ held s.objects

/-- No object is registered, and GDBus has none of them. -/
structure Silent (s : Exports gdbus) : Prop where
  objects : ∀ o ∈ s.objects, o.registrationIds = none
  table : ∀ conn path interface, gdbus.exported s.table conn path interface = none

variable {s s' : Exports gdbus}

theorem first_of_none {objects : List DBusObject}
    (hnone : ∀ o ∈ objects, o.registrationIds = none) (path interface : Bytes) :
    first objects path interface = none := by
  refine List.findIdx?_eq_none_iff.mpr fun o ho => ?_
  simp [Answers, hnone o ho]

theorem Exact.silent (h : s.Exact) (hnone : ∀ o ∈ s.link.objects, o = none) : s.Silent := by
  have hobjects : ∀ o ∈ s.objects, o.registrationIds = none := by
    intro o ho
    have hmem : o.registrationIds.isSome ∈ s.link.objects.map Option.isSome :=
      h.agrees ▸ List.mem_map_of_mem ho
    obtain ⟨o', ho', heq⟩ := List.mem_map.mp hmem
    rw [hnone o' ho'] at heq
    exact Option.not_isSome_iff_eq_none.mp (by simp [← heq])
  refine ⟨hobjects, fun conn path interface =>
    Option.eq_none_iff_forall_not_mem.mpr fun r hr => ?_⟩
  obtain ⟨o, ho, hid⟩ := List.mem_flatMap.mp (h.owned conn path interface r hr).2.2
  rw [hobjects o ho] at hid
  cases hid

theorem Silent.exact (h : s.Silent) (hnone : ∀ o ∈ s.link.objects, o = none)
    (hlength : s.link.objects.length = s.objects.length) : s.Exact where
  agrees := by
    have hlink : s.link.objects.map Option.isSome = s.link.objects.map fun _ => false :=
      List.map_congr_left fun o ho => by rw [hnone o ho]; rfl
    have hobjects : (s.objects.map fun o => o.registrationIds.isSome) =
      s.objects.map fun _ => false :=
      List.map_congr_left fun o ho => by rw [h.objects o ho]; rfl
    rw [hlink, hobjects, List.map_const', List.map_const', hlength]
  reached conn path interface := by
    rw [first_of_none h.objects, ite_self, Gdbus.target, h.table]
    rfl
  owned conn path interface r hr := by
    rw [h.table] at hr
    cases hr

theorem Exact.length (h : s.Exact) : s.link.objects.length = s.objects.length := by
  simpa using congrArg List.length h.agrees

theorem Exact.of_same (h : s.Exact) (hconnection : s'.link.connection = s.link.connection)
    (hlink : s'.link.objects = s.link.objects) (hobjects : s'.objects = s.objects)
    (htable : s'.table = s.table) : s'.Exact where
  agrees := by rw [hlink, hobjects, h.agrees]
  reached := by rw [hconnection, hobjects, htable]; exact h.reached
  owned := by rw [hconnection, hobjects, htable]; exact h.owned

/-- With no object registered before and after it, an event leaves the table empty. -/
theorem Exact.of_silent (h : s.Exact) (hbefore : ∀ o ∈ s.link.objects, o = none)
    (hafter : ∀ o ∈ s'.link.objects, o = none)
    (hlength : s'.link.objects.length = s.link.objects.length) (hobjects : s'.objects = s.objects)
    (htable : s'.table = s.table) : s'.Exact := by
  obtain ⟨hnone, hsilent⟩ := h.silent hbefore
  exact Silent.exact ⟨hobjects ▸ hnone, htable ▸ hsilent⟩ hafter
    (by rw [hlength, hobjects, h.length])

theorem Exact.addObject (h : s.Exact) (path : Bytes) (interfaces : List Bytes) :
    (s.after (.addObject path interfaces)).Exact where
  agrees := by
    simp only [after, Link.after, Link.addObject, List.map_append, h.agrees]
    rfl
  reached conn p i := by
    have hfirst : first (s.objects ++ [{ path := path, interfaces }]) p i =
      first s.objects p i := by
      rw [first, List.findIdx?_append]
      simp [first, Answers]
    simp only [after, Link.after, Link.addObject, hfirst]
    exact h.reached conn p i
  owned conn p i r hr := by
    obtain ⟨hconnection, hzero, hheld⟩ := h.owned conn p i r hr
    refine ⟨hconnection, hzero, ?_⟩
    simp only [after, held, List.flatMap_append]
    exact List.mem_append_left _ hheld

/-- `on_bus_get` finds no object registered, and registers all of them. -/
theorem Exact.onBusGet (hgdbus : gdbus.Lawful) (h : s.Exact) (hnamed : s.link.named = true)
    (hbefore : ∀ o ∈ s.link.objects, o = none) : (s.after (.link (.onBusGet true))).Exact := by
  obtain ⟨hnone, htable⟩ := h.silent hbefore
  have hafter : s.after (.link (.onBusGet true)) =
      { link := s.link.after (.onBusGet true)
        objects := (registerObjects gdbus (some s.link.made) 0 s.objects s.table).1
        table := (registerObjects gdbus (some s.link.made) 0 s.objects s.table).2 } := by
    simp [after, callback, hnamed, withObjects]
  have hlink : (s.link.after (.onBusGet true)).connection = some s.link.made ∧
      (s.link.after (.onBusGet true)).objects = s.link.objects.map fun _ => some s.link.made := by
    simp [Link.after, Link.onBusGet, hnamed, Link.registerObjects, Link.registerWatchers,
      Link.ownName]
  have hempty : ∀ c p i, gdbus.target s.table c p i = none := fun c p i => by
    rw [Gdbus.target, htable]
    rfl
  rw [hafter]
  refine ⟨?_, fun conn path interface => ?_, fun conn path interface r hr => ?_⟩
  · rw [registered_registerObjects s.table hnone]
    simp only [hlink.2, List.map_map, Function.comp_def, Option.isSome_some]
    rw [List.map_const', List.map_const', h.length]
  · simp only [hlink.1, Option.some.injEq]
    rw [target_registerObjects hgdbus 0 s.table hnone, hempty, Option.none_or]
    by_cases hconn : conn = s.link.made
    · simp [hconn]
    · rw [if_neg hconn, if_neg (Ne.symm hconn)]
  · rcases exported_registerObjects hgdbus hnone hr with hold | ⟨hconn, hid, hzero⟩
    · rw [htable] at hold
      cases hold
    · exact ⟨hlink.1.trans (congrArg some hconn.symm), hzero, hid⟩

/-- What `on_name_lost` and `do_disconnect` do first leaves nothing in the table. -/
theorem Exact.silent_unregister (hgdbus : gdbus.Lawful) (h : s.Exact) (hs : s.link.Coherent) :
    Silent (if s.link.named ∧ s.link.connection.isSome then
      s.withObjects (unregisterObjects gdbus s.link.connection s.objects s.table) else s) := by
  split_ifs with hregistered
  · obtain ⟨conn, hconn⟩ := Option.isSome_iff_exists.mp hregistered.2
    refine ⟨fun o ho => ?_, ?_⟩
    · simp only [withObjects, unregisterObjects_objects] at ho
      obtain ⟨o', -, rfl⟩ := List.mem_map.mp ho
      rfl
    · intro c p i
      simp only [withObjects, hconn, exported_unregisterObjects hgdbus]
      refine Option.filter_eq_none_iff.mpr fun r hr => ?_
      obtain ⟨hc, hzero, hheld⟩ := h.owned c p i r hr
      have hsame : c = conn := Option.some.inj (hc.symm.trans hconn)
      simp [hsame, hzero, hheld]
  · refine h.silent fun o ho => ?_
    cases hnamed : s.link.named with
    | false => exact (hs.unnamed hnamed).2 o ho
    | true =>
        have hdown : s.link.connection = none := by
          rw [hnamed] at hregistered
          exact Option.not_isSome_iff_eq_none.mp fun hsome => hregistered ⟨rfl, hsome⟩
        simpa [hdown] using hs.objects o ho

theorem length_release (l : Link) : l.release.objects.length = l.objects.length := by
  rw [Link.release_eq]
  simp only [Link.unregisterObjects]
  split_ifs <;> simp

theorem onNameLost_objects (l : Link) : l.onNameLost.objects = l.release.objects := by
  simp only [Link.onNameLost, Link.closeConnection, Link.onNameLostClose, Link.connect]
  split_ifs <;> rfl

theorem doDisconnect_objects (l : Link) : l.doDisconnect.objects = l.release.objects := by
  simp only [Link.doDisconnect, Link.closeConnection, Link.onDisconnectClose]
  split_ifs <;> rfl

theorem Exact.release (hgdbus : gdbus.Lawful) (h : s.Exact) (hs : s.link.Coherent) {e : LinkEvent}
    (hcallback : s.callback e = if s.link.named ∧ s.link.connection.isSome then
      s.withObjects (unregisterObjects gdbus s.link.connection s.objects s.table) else s)
    {l : Link} (hl : l.Coherent) (hobjects : l.objects = s.link.objects)
    (hlink : (s.link.after e).objects = l.release.objects) : (s.after (.link e)).Exact := by
  have hsilent := h.silent_unregister hgdbus hs
  rw [← hcallback] at hsilent
  refine Silent.exact (s := s.after (.link e)) ⟨hsilent.objects, hsilent.table⟩ ?_ ?_
  · intro o ho
    exact hl.release.2.2 o (hlink ▸ ho)
  · have hcount : (s.callback e).objects.length = s.objects.length := by
      rw [hcallback]
      split_ifs
      · simp [withObjects, unregisterObjects_objects]
      · rfl
    simp only [after]
    rw [hlink, length_release, hobjects, h.length, hcount]

/-- **Steps.** The table follows the objects through every callback. -/
theorem Exact.link (hgdbus : gdbus.Lawful) (h : s.Exact) (hs : s.link.Coherent) {e : LinkEvent}
    (he : s.link.Enabled e) (hadd : e ≠ .addObject) : (s.after (.link e)).Exact := by
  cases e with
  | addObject => exact absurd rfl hadd
  | onBusGet ok =>
      have hrequest : s.link.connection = none :=
        hs.connection_eq_none (by have := (hs.status_of_request he).1; omega)
      have hnone : ∀ o ∈ s.link.objects, o = none := fun o ho => by
        simpa [hrequest] using hs.objects o ho
      cases ok with
      | false => exact h.of_same hrequest.symm rfl rfl rfl
      | true =>
          cases hnamed : s.link.named with
          | true => exact h.onBusGet hgdbus hnamed hnone
          | false =>
              have hafter : (s.link.after (.onBusGet true)).objects = s.link.objects := by
                simp [Link.after, Link.onBusGet, hnamed]
              apply h.of_silent hnone
              · simpa only [after, hafter] using hnone
              · rw [after, hafter]
              · simp [after, callback, hnamed]
              · simp [after, callback, hnamed]
  | onNameLost owner => exact h.release hgdbus hs rfl hs rfl (onNameLost_objects s.link)
  | doDisconnect =>
      have hdispatch :
        { s.link with doDisconnectSources := s.link.doDisconnectSources - 1 }.Coherent :=
        { hs with }
      exact h.release hgdbus hs rfl hdispatch rfl (doDisconnect_objects _)
  | onNameLostClose =>
      have hnone := (hs.closing (Nat.add_pos_left he _)).2.1
      have hafter : (s.link.after .onNameLostClose).objects = s.link.objects := by
        simp only [Link.after, Link.onNameLostClose, Link.connect]
        split_ifs <;> rfl
      exact h.of_silent hnone (by simpa only [after, hafter] using hnone)
        (by rw [after, hafter]) rfl rfl
  | onDisconnectClose =>
      have hnone := (hs.closing (Nat.add_pos_right _ he.1)).2.1
      have hafter : (s.link.after .onDisconnectClose).objects = s.link.objects := by
        simp only [Link.after, Link.onDisconnectClose]
        split_ifs <;> rfl
      exact h.of_silent hnone (by simpa only [after, hafter] using hnone)
        (by rw [after, hafter]) rfl rfl
  | connect | disconnectEnter | disconnectMark | disconnectReturn | busClosed | addWatcher | watch
  | unwatch => exact h.of_same rfl rfl rfl rfl
  | disconnectAttach | doConnect | doReconnect | doFlush | onFlush =>
      have hafter : ∀ e : LinkEvent, e = .disconnectAttach ∨ e = .doConnect ∨
        e = .doReconnect ∨
          e = .doFlush ∨ e = .onFlush → (s.link.after e).connection = s.link.connection ∧
            (s.link.after e).objects = s.link.objects := by
        rintro e (rfl | rfl | rfl | rfl | rfl) <;>
          simp only [Link.after, Link.disconnectAttach, Link.doConnect, Link.doReconnect,
            Link.requestBus, Link.endReconnect, Link.doFlush, Link.onFlush] <;>
          split_ifs <;> exact ⟨rfl, rfl⟩
      exact h.of_same (hafter _ (by simp)).1 (hafter _ (by simp)).2 rfl rfl

/-! ### Runs -/

/-- What is promised of the objects between the callbacks. -/
structure Served (s : Exports gdbus) : Prop where
  exact : s.Exact
  /-- Without a connection, and while one is being closed. -/
  silent :
    s.link.connection = none ∨ 0 < s.link.nameLostCloses + s.link.disconnectCloses → s.Silent
  /-- `on_bus_get` leaves no object out. -/
  complete : ∀ s', step s (.link (.onBusGet true)) = some s' → s.link.named = true →
    ∀ o ∈ s'.objects, o.registrationIds.isSome

theorem Exact.complete (hgdbus : gdbus.Lawful) (h : s.Exact) (hs : s.link.Coherent)
    (he : s.link.Enabled (.onBusGet true)) (hnamed : s.link.named = true) :
    ∀ o ∈ (s.after (.link (.onBusGet true))).objects, o.registrationIds.isSome := by
  intro o ho
  have hagrees := (h.link hgdbus hs he (by simp)).agrees
  have hmem : o.registrationIds.isSome ∈
    (s.link.after (.onBusGet true)).objects.map Option.isSome :=
    hagrees ▸ List.mem_map_of_mem ho
  simp only [Link.after, Link.onBusGet, hnamed, Link.registerObjects, Link.registerWatchers,
    Link.ownName, if_true, Option.isSome_some, List.map_map] at hmem
  obtain ⟨o', -, heq⟩ := List.mem_map.mp hmem
  rw [← heq]
  rfl

theorem Exact.served (hgdbus : gdbus.Lawful) (h : s.Exact) (hs : s.link.Coherent) : s.Served where
  exact := h
  silent hdown := by
    refine h.silent ?_
    rcases hdown with hnone | hclosing
    · exact fun o ho => by simpa [hnone] using hs.objects o ho
    · exact (hs.closing hclosing).2.1
  complete s' hstep hnamed := by
    obtain ⟨⟨he, -⟩, rfl⟩ := step_eq_some.mp hstep
    exact h.complete hgdbus hs he hnamed

theorem Exact.served_fresh (h : s.Exact) (hs : s.link.Fresh) : s.Served where
  exact := h
  silent _ := h.silent hs.objects
  complete s' hstep _ := by
    obtain ⟨⟨he, -⟩, -⟩ := step_eq_some.mp hstep
    simp only [Link.Enabled, hs.busGet] at he
    cases he

end Exports

def ExportsEvent.isConnect : ExportsEvent → Bool
  | .link e => e.isConnect
  | .addObject _ _ => false

namespace Exports

variable {s : Exports gdbus} {e : ExportsEvent}

theorem exact_fresh (h : s.Exact) (hs : s.link.Fresh) (he : s.Enabled e) :
    (s.after e).Exact := by
  cases e with
  | addObject path interfaces => exact h.addObject path interfaces
  | link e =>
      -- before `Connect` no callback is called
      cases e with
      | connect | disconnectEnter | disconnectMark | disconnectReturn | busClosed | addWatcher |
          watch
      | unwatch => exact h.of_same rfl rfl rfl rfl
      | disconnectAttach =>
          rcases hs.outside with hcaller | hcaller <;> simp [Enabled, Link.Enabled, hcaller] at he
      | addObject => exact absurd rfl he.2
      | onNameLost owner =>
          have howner : owner ∈ s.link.owned := he.1
          rw [hs.owned] at howner
          cases howner
      | _ =>
          have hcarriers := hs.noCarrier
          unfold Link.carriers at hcarriers
          have henabled := he.1
          simp only [Link.Enabled, hs.doConnect, hs.doReconnect, hs.busGet, hs.nameLostClose,
            hs.disconnectClose] at henabled
          omega

theorem link_after_isConnect (hother : ¬ e.isConnect) (he : s.Enabled e) :
    ∃ e' : LinkEvent, (s.after e).link = s.link.after e' ∧
    s.link.Enabled e' ∧ ¬ e'.isConnect := by
  cases e with
  | link e => exact ⟨e, rfl, he.1, hother⟩
  | addObject path interfaces => exact ⟨.addObject, rfl, trivial, Bool.false_ne_true⟩

/-- **Exports.** In every run whose owner calls `Connect` once at most, whatever becomes of the bus
and whenever objects are added, a method call reaches the first object registered with its path and
interface on the present connection; `on_bus_get` registers every object, and nothing is left in the
table of a connection that is closing or gone. -/
theorem exact_of_run (hgdbus : gdbus.Lawful) {target : BusTarget} {named : Bool}
    {es : List ExportsEvent} (hrun : Machine.run step (new gdbus target named) es = some s)
    (honce : es.countP ExportsEvent.isConnect ≤ 1) : s.Served := by
  have hnew : (new gdbus target named).Exact :=
    Silent.exact ⟨by simp [new], hgdbus.exported_empty⟩ (by simp [new, Link.new]) rfl
  have hends := Machine.run_once (I := fun t => t.Exact ∧ t.link.Fresh ∧ t.link.ChainSound)
    (J := fun t => t.Exact ∧ t.link.Coherent ∧ t.link.ChainSound) (q := fun _ => True) ?_ ?_ ?_
    hrun (fun _ _ => trivial) honce
    ⟨hnew, Link.fresh_new target named, Link.chainSound_new target named⟩
  · rcases hends with ⟨-, hexact, hfresh, -⟩ | ⟨-, hexact, hcoherent, -⟩
    · exact hexact.served_fresh hfresh
    · exact hexact.served hgdbus hcoherent
  · rintro t e t' ⟨hexact, hfresh, hchain⟩ - hother hstep
    obtain ⟨he, rfl⟩ := step_eq_some.mp hstep
    obtain ⟨e', hlink, he', hother'⟩ := link_after_isConnect hother he
    exact ⟨exact_fresh hexact hfresh he, hlink ▸ hfresh.after he' hother',
      hlink ▸ hchain.after he'⟩
  · rintro t e t' ⟨hexact, hfresh, hchain⟩ - hconnect hstep
    obtain ⟨he, rfl⟩ := step_eq_some.mp hstep
    refine ⟨exact_fresh hexact hfresh he, ?_⟩
    cases e with
    | addObject => cases hconnect
    | link e =>
        refine ⟨?_, hchain.after he.1⟩
        cases e with
        | connect autoReconnect => exact hfresh.connect autoReconnect
        | _ => cases hconnect
  · rintro t e t' ⟨hexact, hcoherent, hchain⟩ - hother hstep
    obtain ⟨he, rfl⟩ := step_eq_some.mp hstep
    obtain ⟨e', hlink, he', hother'⟩ := link_after_isConnect hother he
    refine ⟨?_, hlink ▸ hcoherent.after hchain he' hother', hlink ▸ hchain.after he'⟩
    cases e with
    | addObject path interfaces => exact hexact.addObject path interfaces
    | link e => exact hexact.link hgdbus hcoherent he.1 he.2

/-- Ids are given in order. -/
def plainGdbus : Gdbus where
  Table := (Nat → Bytes → Bytes → Option Registration) × Nat
  empty := (fun _ _ _ => none, 0)
  exported g := g.1
  registerObject g conn path interface object :=
    if (g.1 conn path interface).isSome then (0, g)
    else (g.2 + 1, fun c p i =>
      if c = conn ∧ p = path ∧ i = interface then some ⟨g.2 + 1, object⟩
      else g.1 c p i, g.2 + 1)
  unregisterObject g conn id :=
    (fun c p i => (g.1 c p i).filter fun r => ¬ (c = conn ∧ r.id = id), g.2)

theorem plainGdbus_lawful : plainGdbus.Lawful where
  exported_empty _ _ _ := rfl
  taken g conn path interface object hsome := by
    have hfound : (g.1 conn path interface).isSome := Option.isSome_iff_ne_none.mpr hsome
    simp [plainGdbus, hfound]
  free g conn path interface object hnone := by
    have hfree : g.1 conn path interface = none := hnone
    simp [plainGdbus, hfree]
  unregistered _ _ _ _ _ _ := rfl

/-- Two objects with the same path, on a bus that is lost and comes again. -/
theorem exact_of_run_reconnected :
    ∃ es s, Machine.run step (new plainGdbus .address true) es = some s ∧ s.Served := by
  have hrun : Machine.run step (new plainGdbus .address true)
      [.addObject (ascii "/vdr") [ascii "de.tvdr.vdr.vdr"],
        .addObject (ascii "/vdr") [ascii "de.tvdr.vdr.vdr"],
        .link (.connect true), .link .doConnect, .link (.onBusGet true), .link (.onNameLost 0),
        .addObject (ascii "/Status") [ascii "de.tvdr.vdr.status"], .link .onNameLostClose,
        .link .doConnect, .link (.onBusGet true)] = some _ := rfl
  exact ⟨_, _, hrun, exact_of_run plainGdbus_lawful hrun (by decide)⟩

end Exports

end Dbus2vdr
