import Xv6.Process.ExitWait
import Xv6.Process.LostWakeup
import Xv6.Process.PidWrap
import Xv6.Log.CrashAtomicity
import Xv6.Log.Admission
import Xv6.Vm.SharedPages
import Xv6.Vm.FlatRefinement
import Xv6.Vm.ShmFailures
import Xv6.Shm.Accounting
import Xv6.Semaphore.Conservation
import Xv6.Pipes.Fifo
import Xv6.Pipes.Sleepers
import Xv6.Fs.ReadCount
import Xv6.Ramdisk.Unload
import Xv6.Ramdisk.WriteReport
import Xv6.Waits.Killed
import Xv6.Fs.NoHoles
import Xv6.Fs.DirectoryRuns
import Xv6.Fs.FileWrite
import Xv6.ReadingRoom.Seating
import Xv6.Ramdisk.SharedOffset
import Xv6.Files.StaleFields
import Xv6.Files.NoFollow
import Xv6.Virtio.Requests
import Xv6.Disk.CommitBuffers
import Xv6.Fs.FreeMap
import Xv6.User.Match
import Xv6.User.Memmove
