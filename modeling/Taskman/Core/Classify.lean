import Taskman.Core.Model
import Mathlib.Data.List.Infix

/-!
# Core operating-system images

Which image names are known to belong to the operating system itself: the kernel's pseudo-process
names, a short list of Windows session images, bracketed kernel threads, and the prefixes of their
Unix counterparts.  The presentation uses the same set as boundaries of process trees.

* `Classify.isCoreOsImage` : a kernel pseudo-process or a core image, by name alone.
-/

namespace Taskman

namespace Classify

/-- Kernel pseudo-process names that are not image files. -/
def kernelNames : List Text :=
  ["system".toList, "registry".toList, "memory compression".toList, "secure system".toList,
    "system idle process".toList, "[system process]".toList]

/-- Core Windows session images. -/
def windowsCoreImages : List Text :=
  ["smss.exe".toList, "csrss.exe".toList, "wininit.exe".toList, "services.exe".toList,
    "lsass.exe".toList, "lsaiso.exe".toList, "svchost.exe".toList, "winlogon.exe".toList,
    "dwm.exe".toList, "conhost.exe".toList]

/-- Kernel-side and session infrastructure elsewhere. -/
def systemUnix : List Text :=
  ["kthreadd".toList, "ksoftirqd".toList, "kworker".toList, "rcu_".toList, "migration".toList,
    "systemd".toList, "systemd-journal".toList, "systemd-udevd".toList, "systemd-logind".toList,
    "dbus-daemon".toList, "dbus-broker".toList, "launchd".toList, "loginwindow".toList,
    "windowserver".toList, "kernel_task".toList]

/-- A name in lower case, without a leading slash. -/
def normalize (name : Text) : Text := Text.toAsciiLowercase (name.dropWhile (· == '/'))

/-- The name of a part of the kernel. -/
def isKernelName (nameLower : Text) : Bool := kernelNames.contains nameLower

/-- The name of a part of the system. -/
def matchesCore (nameLower : Text) : Bool :=
  isKernelName nameLower || windowsCoreImages.contains nameLower ||
    nameLower.head? == some '[' ||
    systemUnix.any fun n => n.isPrefixOf nameLower || nameLower == n

/-- True for a kernel pseudo-process or a core OS image, by name alone. -/
def isCoreOsImage (name : Text) : Bool := matchesCore (normalize name)

end Classify

end Taskman
