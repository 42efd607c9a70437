import DecompConfig.TypeTable

namespace DecompConfig.TypeTable

/-- System structures of POSIX on targets with 64-bit `long` and pointers. -/
def posixEntries : List (String × Aggregate) :=
  [("timeval", ⟨["long tv_sec", "long tv_usec"]⟩),
   ("timespec", ⟨["long tv_sec", "long tv_nsec"]⟩),
   ("timezone", ⟨["int tz_minuteswest", "int tz_dsttime"]⟩),
   ("itimerval", ⟨["struct timeval it_interval", "struct timeval it_value"]⟩),
   ("tm", ⟨["int tm_sec", "int tm_min", "int tm_hour", "int tm_mday", "int tm_mon", "int tm_year",
     "int tm_wday", "int tm_yday", "int tm_isdst", "long tm_gmtoff", "const char *tm_zone"]⟩),
   ("iovec", ⟨["void *iov_base", "size_t iov_len"]⟩),
   ("pollfd", ⟨["int fd", "short events", "short revents"]⟩),
   ("flock", ⟨["short l_type", "short l_whence", "long l_start", "long l_len", "int l_pid"]⟩),
   ("rlimit", ⟨["unsigned long rlim_cur", "unsigned long rlim_max"]⟩),
   ("in_addr", ⟨["uint32_t s_addr"]⟩),
   ("linger", ⟨["int l_onoff", "int l_linger"]⟩)]

/-- The names of the sets of aggregates that need no input file. -/
def builtinSets : List String := ["posix"]

/-- Adds the structures of POSIX. -/
def addPosix (table : TypeTable) : TypeTable := table.insertAll posixEntries

/-- The set of aggregates called `set` in letters of either case. -/
def builtin? (set : String) : Option TypeTable :=
  if set.toList.map Char.toLower = "posix".toList then some (addPosix .empty) else none

end DecompConfig.TypeTable
