import DreamMaker.TypeTree.Basic

namespace DreamMaker

structure BuiltinType where
  path : TypePath
  parent? : Option TypePath
  fields : List Field := []
  procs : List String := []

namespace BuiltinType

def plain (names : List String) : List Field :=
  names.map fun name => { name }

def lists (names : List String) : List Field :=
  names.map fun name => { name, type? := some (.absolute ["list"]) }

def unimplemented (names : List String) : List Field :=
  names.map fun name => { name, types := .unimplemented }

def all : List BuiltinType :=
  let datum := some (TypePath.absolute ["datum"])
  let atom := some (TypePath.absolute ["atom"])
  let movable := some (TypePath.absolute ["atom", "movable"])
  [{ path := .root, parent? := none },
   { path := .absolute ["datum"], parent? := some .root
     fields := plain ["type", "parent_type", "vars", "tag"]
     procs := ["New", "Del", "Topic", "Read", "Write"] },
   { path := .absolute ["atom"], parent? := datum
     fields :=
      plain ["name", "desc", "loc", "icon", "icon_state", "dir", "x", "y", "z", "density", "opacity",
        "invisibility", "layer"] ++ lists ["contents", "verbs", "overlays", "underlays"]
     procs := ["Enter", "Entered", "Exit", "Exited", "Click", "DblClick", "Stat"] },
   { path := .absolute ["atom", "movable"], parent? := atom
     fields := plain ["step_x", "step_y", "bound_width", "bound_height"]
     procs := ["Move", "Bump", "Cross", "Crossed", "Uncross", "Uncrossed"] },
   { path := .absolute ["obj"], parent? := movable },
   { path := .absolute ["mob"], parent? := movable
     fields := plain ["key", "ckey", "client", "sight"]
     procs := ["Login", "Logout"] },
   { path := .absolute ["turf"], parent? := atom },
   { path := .absolute ["area"], parent? := atom },
   { path := .absolute ["list"], parent? := datum
     fields := plain ["len"]
     procs := ["Add", "Remove", "Find", "Copy", "Cut", "Insert", "Join", "Swap"] },
   { path := .absolute ["client"], parent? := datum
     fields := plain ["mob", "key", "ckey", "eye", "view", "statpanel"] ++ unimplemented ["control_freak"]
     procs := ["New", "Del", "Topic", "Command"] },
   { path := .absolute ["world"], parent? := datum
     fields :=
      plain ["name", "log", "time", "timeofday", "maxx", "maxy", "maxz", "tick_lag", "cpu"] ++
        unimplemented ["cache_lifespan"]
     procs := ["New", "Del", "Reboot", "Export", "Import"] },
   { path := .absolute ["savefile"], parent? := datum
     fields := plain ["cd", "dir"]
     procs := ["Lock", "Unlock"] }]

def globalProcs : List String :=
  ["sleep", "text", "num2text", "text2num", "min", "max", "round", "rand", "ckey", "copytext",
   "findtext", "replacetext", "lowertext", "uppertext", "list2params", "params2list", "view", "range",
   "orange", "oview", "step", "walk", "flick", "isnum", "istext", "islist", "ispath", "ismob", "isobj",
   "isturf", "isarea", "isloc", "CRASH", "json_encode", "json_decode", "file", "fcopy", "fdel",
   "html_encode", "html_decode", "time2text", "winset", "winget", "shutdown"]

end BuiltinType

def TypeTree.builtin : TypeTree :=
  { types := BuiltinType.all.map fun type =>
      (type.path, { parent? := type.parent?, fields := type.fields, procs := type.procs })
    globals := #[]
    globalProcs := BuiltinType.globalProcs }

end DreamMaker
