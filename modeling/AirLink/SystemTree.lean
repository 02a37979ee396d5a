import AirLink.FileTree

/-! # The files of a system

What programs find on an ordinary system before they have written anything: the directories that are
always there, some files, the devices and the views that a program has of itself.  Every link leads
to something that is no link.
-/

namespace AirLink.SystemTree

/-- An empty directory for a program to run in.  As no path can spell the slash in its name, the
directory is reached from inside only. -/
def home : Place := ["tmp", "/"]

def directories : List Place :=
  ([["boot"], ["dev"], ["etc"], ["home"], ["media"], ["mnt"], ["opt"], ["root"], ["run"], ["srv"],
    ["tmp"], ["usr"], ["var"], ["dev", "shm"], ["run", "lock"], home] : List Place)
    ++ ["bin", "games", "include", "lib", "lib64", "local", "sbin", "share", "src"].map (["usr", ·])
    ++ ["backups", "cache", "lib", "local", "log", "mail", "opt", "spool", "tmp"].map (["var", ·])

/-- The directories that the system keeps itself, with the reason it gives for not creating files in
them. -/
def keptDirectories : List (Place × FileFault) :=
  [(["proc"], .notFound), (["proc", "self"], .notFound), (["proc", "self", "fd"], .notFound),
    (["proc", "sys"], .notFound), (["dev", "pts"], .permissionDenied), (["sys"], .permissionDenied)]

def files : List Place :=
  ["group", "hostname", "hosts", "passwd", "resolv.conf", "shadow"].map (["etc", ·])
    ++ ["cpuinfo", "meminfo", "uptime", "version"].map (["proc", ·])
    ++ ["env", "sh"].map (["usr", "bin", ·])

/-- The devices.  The streams of a program are its devices 0, 1 and 2. -/
def devices : List (Place × Device) :=
  [(["dev", "full"], .full), (["dev", "tty"], .detached)]
    ++ ["null", "random", "urandom", "zero"].map (["dev", ·], .drain)
    ++ ["0", "1", "2"].map (["proc", "self", "fd", ·], .drain)

def links : List (Place × Place) :=
  ["bin", "lib", "lib64", "sbin"].map (fun name => ([name], ["usr", name]))
    ++ [(["dev", "fd"], ["proc", "self", "fd"]), (["dev", "stdin"], ["proc", "self", "fd", "0"]),
      (["dev", "stdout"], ["proc", "self", "fd", "1"]),
      (["dev", "stderr"], ["proc", "self", "fd", "2"]), (["proc", "self", "cwd"], home),
      (["proc", "self", "root"], []), (["var", "lock"], ["run", "lock"]), (["var", "run"], ["run"])]

def tree : FileTree where
  nodes := directories.map (·, .directory)
    ++ keptDirectories.map (fun (place, refusal) => (place, .directory (some refusal)))
    ++ files.map (·, .file [])
    ++ devices.map (fun (place, device) => (place, .device device))
    ++ links.map fun (place, target) => (place, .link target)
  home := home

def isTarget : FileNode → Bool
  | .link _ => false
  | _ => true

theorem links_lead : links.all (fun (_, target) => (tree.node? target).any isTarget) = true := by
  decide +kernel

end AirLink.SystemTree
