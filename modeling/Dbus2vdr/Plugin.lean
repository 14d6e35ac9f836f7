import Mathlib.Data.List.Nodup
import Dbus2vdr.CString

/-!
# Objects of plugins

`AddAllPlugins` registers an object for every loaded plugin, under its name with hyphens made into
underscores, since D-Bus has no hyphens in paths. The methods of the object go back from its path to
the plugin, and there the hyphens are lost. `all_reached_iff` says that calls arrive where they
should exactly when no plugin has a hyphen in its name.
-/

namespace Dbus2vdr

/-- What the objects need of a `cPlugin`; `svdrpCommand` takes and gives back the reply code. -/
structure Plugin where
  name : Bytes
  svdrpCommand : Bytes → Bytes → Int → Option Bytes × Int
  service : Bytes → Bytes → Bool

structure LoadedPlugins where
  plugins : List Plugin
  distinct : (plugins.map (·.name)).Nodup

namespace Plugin

def hyphen : UInt8 := 45

def underscore : UInt8 := 95

def pathStart : Bytes := ascii "/Plugins/"

/-- `if (path[i] == '-') path[i] = '_';` -/
def mapHyphen (c : UInt8) : UInt8 := if c = hyphen then underscore else c

def objectPath (p : Plugin) : Bytes := (pathStart ++ p.name).map mapHyphen

end Plugin

namespace LoadedPlugins

open Plugin (pathStart)

def getPluginAt (loaded : LoadedPlugins) (index : Nat) : Option Plugin := loaded.plugins[index]?

def getPlugin (loaded : LoadedPlugins) (name : Bytes) : Option Plugin :=
  loaded.plugins.find? fun p => p.name = name

def addLoop (loaded : LoadedPlugins) : Nat → Nat → List Bytes
  | 0, _ => []
  | fuel + 1, index =>
      match loaded.getPluginAt index with
      | none => []
      | some plugin => plugin.objectPath :: addLoop loaded fuel (index + 1)

def addAllPlugins (loaded : LoadedPlugins) : List Bytes :=
  loaded.addLoop (loaded.plugins.length + 1) 0

/-- How both methods find their plugin from the path of the object. -/
def target (loaded : LoadedPlugins) (path : Bytes) : Option Plugin :=
  if pathStart.length < path.length ∧ path.take pathStart.length = pathStart then
    loaded.getPlugin (path.drop pathStart.length)
  else none

def svdrpCommand (loaded : LoadedPlugins) (path command option : Bytes) :
    Option Plugin × Int × Option Bytes :=
  match loaded.target path with
  | none => (none, 500, none)
  | some plugin =>
      match plugin.svdrpCommand command option 900 with
      | (some s, replyCode) => (some plugin, replyCode, some s)
      | (none, _) =>
          (some plugin, 500, some (ascii "Command unrecognized: \"" ++ command ++ ascii "\""))

def service (loaded : LoadedPlugins) (path id data : Bytes) : Option Plugin × Bool :=
  match loaded.target path with
  | none => (none, false)
  | some plugin => (some plugin, plugin.service id data)

/-- `AddAllPlugins` registers `path` for the plugin with this index and for no other one, and
whatever is called on it reaches the plugin. -/
structure Reached (loaded : LoadedPlugins) (index : Nat) (path : Bytes) : Prop where
  registered : loaded.addAllPlugins[index]? = some path
  alone : ∀ other, loaded.addAllPlugins[other]? = some path → other = index
  svdrpCommand : ∀ command option,
    (loaded.svdrpCommand path command option).1 = loaded.getPluginAt index
  service : ∀ id data, (loaded.service path id data).1 = loaded.getPluginAt index

end LoadedPlugins

/-! ### Paths -/

namespace Plugin

theorem map_mapHyphen_eq_self_iff (name : Bytes) :
    name.map mapHyphen = name ↔ hyphen ∉ name := by
  constructor
  · intro hsame hmem
    rw [← hsame] at hmem
    obtain ⟨c, -, hc⟩ := List.mem_map.mp hmem
    unfold mapHyphen at hc
    split_ifs at hc with hhyphen
    · exact absurd hc (by decide)
    · exact hhyphen hc
  · intro hnot
    calc name.map mapHyphen = name.map id := List.map_congr_left fun c hc => by
          have hne : c ≠ hyphen := fun h => hnot (h ▸ hc)
          rw [mapHyphen, if_neg hne, id]
      _ = name := List.map_id name

theorem objectPath_eq (p : Plugin) : p.objectPath = pathStart ++ p.name.map mapHyphen := by
  rw [objectPath, List.map_append]
  rfl

theorem objectPath_inj {p q : Plugin} :
    p.objectPath = q.objectPath ↔ p.name.map mapHyphen = q.name.map mapHyphen := by
  rw [objectPath_eq, objectPath_eq, List.append_right_inj]

end Plugin

namespace LoadedPlugins

open Plugin (pathStart hyphen mapHyphen objectPath_eq objectPath_inj map_mapHyphen_eq_self_iff)

variable (loaded : LoadedPlugins)

theorem getPlugin_eq_some_iff {name : Bytes} {p : Plugin} :
    loaded.getPlugin name = some p ↔ p ∈ loaded.plugins ∧ p.name = name := by
  unfold getPlugin
  constructor
  · intro hfind
    exact ⟨List.mem_of_find?_eq_some hfind, by simpa using List.find?_some hfind⟩
  · rintro ⟨hmem, rfl⟩
    obtain ⟨q, hq⟩ : ∃ q, loaded.plugins.find? (fun q => q.name = p.name) = some q := by
      rw [← Option.isSome_iff_exists, List.find?_isSome]
      exact ⟨p, hmem, by simp⟩
    have hname : q.name = p.name := by simpa using List.find?_some hq
    rw [hq, List.inj_on_of_nodup_map loaded.distinct (List.mem_of_find?_eq_some hq) hmem hname]

theorem addAllPlugins_eq : loaded.addAllPlugins = loaded.plugins.map Plugin.objectPath := by
  have hloop : ∀ fuel index, loaded.plugins.length < fuel + index →
      loaded.addLoop fuel index = (loaded.plugins.drop index).map Plugin.objectPath := by
    intro fuel
    induction fuel with
    | zero =>
        intro index hfuel
        rw [addLoop, List.drop_eq_nil_of_le (by omega), List.map_nil]
    | succ fuel ih =>
        intro index hfuel
        rw [addLoop, getPluginAt]
        by_cases hindex : index < loaded.plugins.length
        · rw [List.getElem?_eq_getElem hindex, List.drop_eq_getElem_cons hindex, List.map_cons]
          exact congrArg _ (ih (index + 1) (by omega))
        · rw [List.getElem?_eq_none (by omega), List.drop_eq_nil_of_le (by omega), List.map_nil]
  exact hloop _ 0 (by omega)

theorem target_objectPath (p : Plugin) :
    loaded.target p.objectPath =
      if p.name = [] then none else loaded.getPlugin (p.name.map mapHyphen) := by
  rw [target, objectPath_eq, List.drop_left, List.take_left, List.length_append, List.length_map]
  cases p.name with
  | nil => simp
  | cons c name => simp

theorem svdrpCommand_fst (path command option : Bytes) :
    (loaded.svdrpCommand path command option).1 = loaded.target path := by
  unfold svdrpCommand
  cases loaded.target path with
  | none => rfl
  | some plugin =>
      dsimp only
      split <;> rfl

theorem service_fst (path id data : Bytes) :
    (loaded.service path id data).1 = loaded.target path := by
  unfold service
  cases loaded.target path <;> rfl

theorem addAllPlugins_getElem? (index : Nat) :
    loaded.addAllPlugins[index]? = (loaded.getPluginAt index).map Plugin.objectPath := by
  rw [addAllPlugins_eq, List.getElem?_map]
  rfl

theorem eq_of_name {p q : Plugin} {i j : Nat} (hp : loaded.getPluginAt i = some p)
    (hq : loaded.getPluginAt j = some q) (hname : p.name = q.name) : i = j := by
  have hlength : i < (loaded.plugins.map (·.name)).length := by
    rw [List.length_map]
    exact (List.getElem?_eq_some_iff.mp hp).1
  refine (List.getElem?_inj hlength loaded.distinct).mp ?_
  have hnames : (loaded.getPluginAt i).map (·.name) = (loaded.getPluginAt j).map (·.name) := by
    rw [hp, hq]
    exact congrArg some hname
  rw [List.getElem?_map, List.getElem?_map]
  exact hnames

theorem reached_iff {p : Plugin} {index : Nat} (hp : loaded.getPluginAt index = some p) :
    (∃ path, loaded.Reached index path) ↔
      p.name ≠ [] ∧ hyphen ∉ p.name ∧
      ∀ q ∈ loaded.plugins, q.name ≠ p.name → q.name.map mapHyphen ≠ p.name := by
  have hpath : loaded.addAllPlugins[index]? = some p.objectPath := by
    rw [addAllPlugins_getElem?, hp]
    rfl
  have htarget : loaded.target p.objectPath = some p ↔ p.name ≠ [] ∧ hyphen ∉ p.name := by
    rw [target_objectPath]
    split_ifs with hnil
    · simp [hnil]
    · rw [getPlugin_eq_some_iff, eq_comm (a := p.name), map_mapHyphen_eq_self_iff]
      simp [List.mem_of_getElem? hp, hnil]
  constructor
  · rintro ⟨path, hregistered, halone, hcommand, -⟩
    obtain rfl := Option.some.inj (hpath.symm.trans hregistered)
    have hback := hcommand [] []
    rw [svdrpCommand_fst, hp, htarget] at hback
    refine ⟨hback.1, hback.2, fun q hq hne hmapped => hne ?_⟩
    obtain ⟨other, hother⟩ := List.getElem?_of_mem hq
    have hsame : q.objectPath = p.objectPath := by
      rw [objectPath_inj, hmapped, (map_mapHyphen_eq_self_iff p.name).mpr hback.2]
    have hindex := halone other (by
      rw [addAllPlugins_getElem?, getPluginAt, hother, Option.map_some, hsame])
    rw [hindex] at hother
    rw [Option.some.inj (hother.symm.trans hp)]
  · rintro ⟨hnil, hhyphen, hothers⟩
    refine ⟨p.objectPath, hpath, fun other hother => ?_, fun command option => ?_,
      fun id data => ?_⟩
    · rw [addAllPlugins_getElem?] at hother
      obtain ⟨q, hq, hsame⟩ := Option.map_eq_some_iff.mp hother
      have hname : q.name = p.name := by
        by_contra hne
        refine hothers q (List.mem_of_getElem? hq) hne ?_
        rw [objectPath_inj.mp hsame, (map_mapHyphen_eq_self_iff p.name).mpr hhyphen]
      exact loaded.eq_of_name hq hp hname
    · rw [svdrpCommand_fst, hp]
      exact htarget.mpr ⟨hnil, hhyphen⟩
    · rw [service_fst, hp]
      exact htarget.mpr ⟨hnil, hhyphen⟩

/-- **Every call reaches its plugin**, for all plugins that are loaded, if and only if none of their
names is empty or has a hyphen in it. -/
theorem all_reached_iff :
    (∀ index < loaded.plugins.length, ∃ path, loaded.Reached index path) ↔
      ∀ p ∈ loaded.plugins, p.name ≠ [] ∧ hyphen ∉ p.name := by
  constructor
  · intro hall p hmem
    obtain ⟨index, hp⟩ := List.getElem?_of_mem hmem
    have hreached := hall index (List.getElem?_eq_some_iff.mp hp).1
    obtain ⟨hnil, hhyphen, -⟩ := (loaded.reached_iff hp).mp hreached
    exact ⟨hnil, hhyphen⟩
  · intro hall index hindex
    have hp : loaded.getPluginAt index = some loaded.plugins[index] :=
      List.getElem?_eq_getElem hindex
    obtain ⟨hnil, hhyphen⟩ := hall _ (List.getElem_mem hindex)
    refine (loaded.reached_iff hp).mpr ⟨hnil, hhyphen, fun q hq hne hmapped => hne ?_⟩
    rw [← hmapped, (map_mapHyphen_eq_self_iff q.name).mpr (hall q hq).2]

/-- The README's own example. -/
theorem streamdev_server_lost :
    ¬ ∀ (loaded : LoadedPlugins), ∀ index < loaded.plugins.length,
      ∃ path, loaded.Reached index path := by
  intro hall
  let streamdev : Plugin :=
    ⟨ascii "streamdev-server", fun _ _ code => (none, code), fun _ _ => true⟩
  let only : LoadedPlugins := ⟨[streamdev], by simp⟩
  have hreached := (only.reached_iff (p := streamdev) rfl).mp
    (hall only 0 (by decide))
  exact absurd hreached.2.1 (by decide)

end LoadedPlugins

end Dbus2vdr
