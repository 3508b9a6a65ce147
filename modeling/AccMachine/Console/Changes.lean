import AccMachine.Console

namespace AccMachine

structure Changes where
  log : String
  dialogs : List Dialog
  registers : List RegisterRow
  cache : List CacheRow
  memory : List (Nat × MemoryRow)

namespace Display

def nothing : Display where
  phase := .stopped
  cycles := ""
  next := ""
  cacheStatus := ""
  hexButton := ""
  registers := []
  cache := []
  memory := #[]
  seen := none
  log := []
  dialogs := []

def added {α : Type} (before now : List α) : List α :=
  (now.take (now.length - before.length)).reverse

/-- What a display shows that the one before it did not show in the same place. -/
def changesSince (now before : Display) : Changes where
  log := String.join ((added before.log now.log).map (· ++ "\n"))
  dialogs := added before.dialogs now.dialogs
  registers := now.registers.filter fun r => !before.registers.contains r
  cache := now.cache.filter fun r => !before.cache.contains r
  memory := (now.memory.toList.zipIdx.filter fun (row, i) => before.memory[i]? != some row).map
    fun (row, i) => (i, row)

end Display

end AccMachine
