import BitlockerForensic.Core.Safety
import BitlockerForensic.Core.FailClosed
import BitlockerForensic.Core.Protectors
import BitlockerForensic.Core.BlockParsing
import BitlockerForensic.Core.MetadataSearch
import BitlockerForensic.Core.RecoveryPassword
import BitlockerForensic.Core.CursorRefinement
import BitlockerForensic.Core.SharedSource
import BitlockerForensic.Core.LogicalBytes
import BitlockerForensic.Core.Layer
import BitlockerForensic.Core.SecondCredential
import BitlockerForensic.Core.Restore
import BitlockerForensic.Core.Builds
import BitlockerForensic.Core.Mount
import BitlockerForensic.Core.ErrorTexts
import BitlockerForensic.Forensic.Report
